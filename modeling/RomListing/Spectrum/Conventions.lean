import RomListing.Spectrum.Calculator

/-!
# Calling conventions of the Spectrum ROMs

`rst $08` is followed by an error code. `rst $28` calls the calculator, whose byte code
follows, or in some ROM pages a routine of the 48K ROM, whose address follows. Which of
them hold depends on the ROM page.
-/

namespace RomListing.Spectrum

structure Conventions where
  errors : Bool := false
  calculator : Bool := false
  rom48 : Bool := false
  deriving DecidableEq

namespace Conventions

def number (k : Conventions) : Nat :=
  (if k.errors then 1 else 0) + (if k.calculator then 2 else 0) + if k.rom48 then 4 else 0

def ofNumber (n : Nat) : Conventions := ⟨n.testBit 0, n.testBit 1, n.testBit 2⟩

theorem number_ofNumber : ∀ n : Fin 8, (ofNumber n).number = n := by decide

def basic : Conventions := { errors := true, calculator := true }

def editor : Conventions := { rom48 := true }

end Conventions

abbrev Pages := List (Int × Conventions)

namespace Pages

def spectrum48 : Pages := [(0, .basic)]

def spectrum128 : Pages := [(0, .editor), (1, .basic)]

def spectrumP3 : Pages := [(0, .editor), (1, .editor), (2, .editor), (3, .basic)]

def spectrumNext : Pages := spectrumP3

/-- The conventions at an address. When the page is not known the 16K bank of the address
stands for it. -/
def conventionsAt (pages : Pages) (o : Options) (address : Int) : Conventions :=
  let bank := wrap address / 0x4000
  let page := match o.romPage with
    | some page => if page < 0 then bank else page
    | none => bank
  (pages.lookup page).getD {}

end Pages

inductive Mode where
  | idle
  | reportError
  | calculator
  | rom48Call
  deriving DecidableEq, Repr

def Mode.name : Mode → String
  | .idle => "IDLE"
  | .reportError => "REPORT_ERROR"
  | .calculator => "CALCULATOR"
  | .rom48Call => "ROM48_CALL"

structure State where
  mode : Mode := .idle
  /-- How many numbers come before the next operation of the calculator. -/
  pending : Nat := 0
  deriving DecidableEq

namespace State

def switch (st : State) (mode : Mode) : State × List Notice :=
  ({ st with mode := mode }, if st.mode = mode then [] else [.mode st.mode.name mode.name])

end State

def callsCalculator (opcodes : List UInt8) : Bool :=
  opcodes == [0xEF] || opcodes == [0xCD, 0x5E, 0x33] || opcodes == [0xCD, 0x62, 0x33]

def errorCode (s : Setting) (c : Cursor) : Item × Cursor :=
  let (code, after) := c.fetch s
  let text := "$" ++ Numeral.hex2 code.toNat
  ({ address := s.shownAddress c.offset
     opcodes := [code]
     text := ".defb " ++ text
     remark := some ("(error code: " ++ text ++ ")") }, after)

def routineAddress (s : Setting) (c : Cursor) : Item × Cursor :=
  let (low, after) := c.fetch s
  let (high, after) := after.fetch s
  let target := low.toNat + 0x100 * high.toNat
  ({ address := s.shownAddress c.offset
     opcodes := [low, high]
     text := ".defw $" ++ Numeral.hex4 target
     hasSymbol := true
     symbolValue := some target }, after)

def enter (_ : Region) (st : State) : State × List Notice :=
  let (st, notices) := st.switch .idle
  ({ st with pending := 0 }, notices)

def single (st : State) (result : Item × Cursor) : Step State :=
  let (st, notices) := st.switch .idle
  { handled := true, state := st, cursor := result.2, items := [result.1], notices := notices }

def calculatorEntry (s : Setting) (c : Cursor) (st : State) : Step State :=
  let e := Calculator.entry s st.pending c
  let st := { st with pending := e.pending }
  let (st, notices) := if e.goesOn then (st, []) else st.switch .idle
  { handled := true
    state := st
    cursor := e.cursor
    items := [e.item]
    references := e.references
    notices := notices }

def before (s : Setting) (c : Cursor) (st : State) : Step State :=
  if (c.peek s 0).beyond then { handled := false, state := st, cursor := c }
  else
    match st.mode with
    | .idle => { handled := false, state := st, cursor := c }
    | .reportError => single st (errorCode s c)
    | .calculator => calculatorEntry s c st
    | .rom48Call => single st (routineAddress s c)

def verdict (st : State) (mode : Mode) (remark : String) : Verdict State :=
  let (st, notices) := st.switch mode
  { state := st, remark := some remark, notices := notices }

def after (pages : Pages) (s : Setting) (item : Item) (st : State) : Verdict State :=
  let k := pages.conventionsAt s.options item.address
  if k.errors && item.opcodes == [0xCF] then verdict st .reportError "(Report error)"
  else if k.calculator && callsCalculator item.opcodes then
    verdict { st with pending := 0 } .calculator "(Invoke Calculator)"
  else if k.rom48 && item.opcodes == [0xEF] then verdict st .rom48Call "(Call Spectrum 48 ROM)"
  else { state := st }

/-- What a custom region holds: calculator entries, jumps and ends not heeded. -/
structure Entries where
  items : List Item := []
  references : List Reference := []
  pending : Nat
  cursor : Cursor

def entries (s : Setting) (last : Int) : Nat → Nat → Cursor → Entries
  | 0, pending, c => { pending := pending, cursor := c }
  | fuel + 1, pending, c =>
    if c.offset ≤ last ∧ (c.peek s 0).beyond = false then
      let e := Calculator.entry s pending c
      let rest := entries s last fuel e.pending e.cursor
      { rest with
        items := e.item :: rest.items
        references := e.references ++ rest.references }
    else { pending := pending, cursor := c }

def custom (s : Setting) (r : Region) (c : Cursor) (st : State) : Step State :=
  let l := entries s r.last r.length 0 c
  { handled := true
    state := { st with pending := l.pending }
    cursor := l.cursor
    items := l.items
    references := l.references }

def extension (pages : Pages) : Extension State where
  enter := enter
  before := before
  after := after pages
  custom := custom

end RomListing.Spectrum

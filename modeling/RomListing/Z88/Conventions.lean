import RomListing.Extension
import RomListing.Z88.Calls

/-!
# Calling conventions of the Cambridge Z88

The restart instructions call the system, with the code of the call after them: `rst $18`
the floating point package, `rst $20` the operating system, `rst $28` a routine at a 24-bit
address, `rst $30` the memory binding. One call of the operating system prints the text
that follows it up to a zero.
-/

namespace RomListing.Z88

inductive Piece where
  | text (cs : List Char)
  | code (b : UInt8)
  deriving DecidableEq

def Piece.render : Piece → String
  | .text cs => String.ofList ('"' :: cs ++ ['"'])
  | .code b => "$" ++ Numeral.hex2 b.toNat

def pieces : List UInt8 → List Piece
  | [] => []
  | b :: rest =>
    if 32 ≤ b ∧ b ≤ 127 then
      let c := Char.ofNat b.toNat
      match pieces rest with
      | .text cs :: more => .text (c :: cs) :: more
      | more => .text [c] :: more
    else .code b :: pieces rest

/-- The operand text of bytes: printable ones between quotes, the others in hexadecimal. -/
def stringOperand (bytes : List UInt8) : String :=
  ", ".intercalate ((pieces bytes).map Piece.render)

example : stringOperand [72, 105, 0] = "\"Hi\", $00" := by decide

def callName (calls : List (Nat × String)) (code : Nat) : String :=
  (calls.lookup code).getD "<unknown>"

section

variable {calls : List (Nat × String)} {code : Nat}

theorem callName_of_mem (hcodes : (calls.map Prod.fst).Nodup) {name : String}
    (h : (code, name) ∈ calls) : callName calls code = name := by
  have hlookup : calls.lookup code = some name := by
    obtain ⟨before, after, rfl⟩ := List.append_of_mem h
    rw [List.map_append, List.map_cons, List.nodup_append] at hcodes
    refine List.lookup_eq_some_iff.2 ⟨before, after, rfl, fun call hcall => ?_⟩
    exact bne_iff_ne.2
      (hcodes.2.2 call.1 (List.mem_map_of_mem hcall) code List.mem_cons_self).symm
  rw [callName, hlookup, Option.getD_some]

theorem callName_of_notMem (h : code ∉ calls.map Prod.fst) :
    callName calls code = "<unknown>" := by
  have hlookup : calls.lookup code = none := by
    refine List.lookup_eq_none_iff.2 fun call hcall => bne_iff_ne.2 fun hcode => h ?_
    exact List.mem_map.2 ⟨call, hcall, hcode.symm⟩
  rw [callName, hlookup, Option.getD_none]

end

theorem floatCalls_nodup : (floatCalls.map Prod.fst).Nodup := by decide +kernel

theorem systemCalls_nodup : (systemCalls.map Prod.fst).Nodup := by decide +kernel

/-- Reads up to a zero, which is included, or to the end of the image. -/
def readString (s : Setting) : Nat → Cursor → List UInt8 × Cursor
  | 0, c => ([], c)
  | fuel + 1, c =>
    let (b, after) := c.fetch s
    if after.overflow then ([], after)
    else if b = 0 then ([b], after)
    else
      let (bs, after) := readString s fuel after
      (b :: bs, after)

/-- The codes of the system that have a second byte. -/
def isWide (code : UInt8) : Bool := code == 0x06 || code == 0x09 || code == 0x0C

def callItem (s : Setting) (c : Cursor) (opcodes : List UInt8) (text : String) : Item :=
  { address := s.shownAddress c.offset
    opcodes := opcodes
    text := text
    partition := s.options.partitionAt c.offset }

def handled (after : Cursor) (items : List Item) : Step Unit :=
  { handled := true, state := (), cursor := after, items := items }

def floatCall (s : Setting) (c : Cursor) : Step Unit :=
  let (_, after) := c.fetch s
  let (code, after) := after.fetch s
  handled after [callItem s c [0xDF, code] ("fpp " ++ callName floatCalls code.toNat)]

def inlineString (s : Setting) (c after : Cursor) : List Item × Cursor :=
  let (bytes, after) := readString s (s.image.bytes.size + 1) after
  if bytes.isEmpty then ([], after)
  else
    ([{ callItem s c bytes (".defb " ++ stringOperand bytes) with continuation := true }], after)

def systemCall (s : Setting) (c : Cursor) : Step Unit :=
  let (_, after) := c.fetch s
  let (code, after) := after.fetch s
  if isWide code then
    let (high, after) := after.fetch s
    handled after [callItem s c [0xE7, code, high]
      ("oz " ++ callName systemCalls (code.toNat + 0x100 * high.toNat))]
  else
    let call := callItem s c [0xE7, code] ("oz " ++ callName systemCalls code.toNat)
    if code = 0x93 then
      let (items, after) := inlineString s c after
      handled after (call :: items)
    else handled after [call]

def farCall (s : Setting) (c : Cursor) : Step Unit :=
  let (_, after) := c.fetch s
  let (low, after) := after.fetch s
  let (middle, after) := after.fetch s
  let (high, after) := after.fetch s
  let target := low.toNat + 0x100 * middle.toNat + 0x10000 * high.toNat
  handled after [callItem s c [0xEF, low, middle, high]
    ("extcall $" ++ String.ofList (Nat.toDigits 16 target))]

def memoryBinding (s : Setting) (c : Cursor) : Step Unit :=
  let (_, after) := c.fetch s
  handled after [callItem s c [0xF7] "rst oz_mbp"]

def before (s : Setting) (c : Cursor) (_ : Unit) : Step Unit :=
  let sight := c.peek s 0
  if sight.beyond then { handled := false, state := (), cursor := c }
  else if sight.value = 0xDF then floatCall s c
  else if sight.value = 0xE7 then systemCall s c
  else if sight.value = 0xEF then farCall s c
  else if sight.value = 0xF7 then memoryBinding s c
  else { handled := false, state := (), cursor := c }

def extension : Extension Unit where
  enter _ u := (u, [])
  before := before
  after _ _ u := { state := u }
  custom _ _ c u := { handled := false, state := u, cursor := c }

end RomListing.Z88

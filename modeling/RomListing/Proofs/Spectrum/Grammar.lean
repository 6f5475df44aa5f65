import RomListing.Proofs.Processor
import RomListing.Proofs.Spectrum.ByteCode
import RomListing.Spectrum.Conventions

/-! # The grammar of code under the conventions of the Spectrum ROMs

Code is a run of phrases, each an instruction with the payload that it calls for. The parser goes
by places alone: it knows no mode and keeps no cursor. It reads on in the middle of a phrase only
where the part and the image go on. What an instruction calls for is told by its bytes and by the
ROM page of its address, and what a payload lists by the bytes at its place.
-/

namespace RomListing.Spectrum

open ByteCode (operands read)

/-! ## ROM pages -/

/-- The ROM page of an address: the page that is set, unless it is below 0, or else the 16K bank of
the address. -/
def pageOf (o : Options) (address : Int) : Int :=
  let bank := address % 0x10000 / 0x4000
  match o.romPage with
  | some page => if 0 ≤ page then page else bank
  | none => bank

/-- The conventions of a page; in a page that is not in the table none hold. -/
def Pages.find (pages : Pages) (page : Int) : Conventions :=
  match List.find? (fun entry => entry.1 = page) pages with
  | some entry => entry.2
  | none => {}

theorem Pages.find_eq (pages : Pages) (page : Int) :
    pages.find page = (pages.lookup page).getD {} := by
  unfold Pages.find
  induction pages with
  | nil => rfl
  | cons entry pages ih =>
      rw [List.lookup_cons, List.find?_cons]
      by_cases h : entry.1 = page
      · subst h
        simp
      · have hne : (page == entry.1) = false := beq_false_of_ne (Ne.symm h)
        rw [decide_eq_false h, hne]
        exact ih

theorem conventionsAt_eq (pages : Pages) (o : Options) (address : Int) :
    pages.conventionsAt o address = pages.find (pageOf o address) := by
  rw [Pages.find_eq]
  unfold Pages.conventionsAt pageOf wrap
  cases o.romPage with
  | none => rfl
  | some page =>
      dsimp only
      by_cases hpage : page < 0
      · rw [if_pos hpage, if_neg (Int.not_le.2 hpage)]
      · rw [if_neg hpage, if_pos (Int.not_lt.1 hpage)]

/-! ## Payloads that are called for -/

inductive Payload where
  | errorCode
  | program
  | routine
  deriving DecidableEq

def Payload.remark : Payload → String
  | errorCode => "(Report error)"
  | program => "(Invoke Calculator)"
  | routine => "(Call Spectrum 48 ROM)"

def Conventions.payload? (k : Conventions) (opcodes : List UInt8) : Option Payload :=
  if k.errors ∧ opcodes = [0xCF] then some .errorCode
  else if k.calculator ∧ opcodes ∈ [[0xEF], [0xCD, 0x5E, 0x33], [0xCD, 0x62, 0x33]] then
    some .program
  else if k.rom48 ∧ opcodes = [0xEF] then some .routine
  else none

/-- The payload that an instruction calls for, under the conventions of the page of its address. -/
def payload? (pages : Pages) (o : Options) (item : Item) : Option Payload :=
  (pages.find (pageOf o item.address)).payload? item.opcodes

/-! ## The parser -/

/-- What stands between two places: the items, and the place behind them. -/
structure Passage where
  items : List Item := []
  stop : Int

section

variable (s : Setting) (last : Int)

/-- An item of so many bytes. If the image ends before, the next place is the one behind it. -/
def Passage.single (place : Int) (size : Nat) (item : Item) : Passage :=
  { items := [item], stop := place + s.image.available place size }

/-- The token of the byte code at a place where so many numbers are due. -/
def token (due : Nat) (place : Int) : Passage :=
  let t := read s.image due place
  .single s place t.bytes.length (t.item s place)

def errorItem (place : Int) : Item :=
  let text := "$" ++ Numeral.hex2 (s.image.byteAt place).toNat
  { address := s.shownAddress place
    opcodes := s.image.slice place 1
    text := ".defb " ++ text
    remark := some ("(error code: " ++ text ++ ")") }

def routineItem (place : Int) : Item :=
  let routine := (s.image.byteAt place).toNat + 0x100 * (s.image.byteAt (place + 1)).toNat
  { address := s.shownAddress place
    opcodes := s.image.slice place 2
    text := ".defw $" ++ Numeral.hex4 routine
    hasSymbol := true
    symbolValue := some routine }

theorem le_single_stop (place : Int) (size : Nat) (item : Item) :
    place ≤ (Passage.single s place size item).stop := by
  show place ≤ place + s.image.available place size
  omega

theorem lt_single_stop {s : Setting} {place : Int} (hin : (s.image.byte? place).isSome = true)
    {size : Nat} (hpos : 0 < size) (item : Item) :
    place < (Passage.single s place size item).stop := by
  have hin := Image.byte?_isSome_iff.1 hin
  have havailable := Image.available_eq_min hin.1 size
  show place < place + s.image.available place size
  omega

/-- The numbers after an operation, as far as they start in the part. -/
def numbers : Nat → Int → Passage
  | 0, place => { stop := place }
  | n + 1, place =>
    if place ≤ last then
      let first := token s (n + 1) place
      let rest := numbers n first.stop
      { items := first.items ++ rest.items, stop := rest.stop }
    else { stop := place }

theorem le_numbers_stop (n : Nat) (place : Int) : place ≤ (numbers s last n place).stop := by
  induction n generalizing place with
  | zero => exact Int.le_refl _
  | succ n ih =>
      unfold numbers
      split
      · exact Int.le_trans (le_single_stop s place _ _) (ih _)
      · exact Int.le_refl _

/-- The byte code of the calculator: operations with the numbers that they ask for, up to the
first `end-calc` or `jump`. -/
def program (place : Int) : Passage :=
  if place ≤ last ∧ (s.image.byte? place).isSome = true then
    let operation := token s 0 place
    let code := s.image.byteAt place
    if code = 0x38 ∨ code = 0x33 then operation
    else
      let literals := numbers s last (operands code) operation.stop
      let rest := program literals.stop
      { items := operation.items ++ (literals.items ++ rest.items), stop := rest.stop }
  else { stop := place }
  termination_by (last + 1 - place).toNat
  decreasing_by
    rename_i hin _
    have hlt : place < operation.stop := lt_single_stop hin.2 (ByteCode.Token.bytes_pos _) _
    have hle : operation.stop ≤ literals.stop := le_numbers_stop ..
    show (last + 1 - literals.stop).toNat < (last + 1 - place).toNat
    omega

theorem le_program_stop (place : Int) : place ≤ (program s last place).stop := by
  fun_induction program s last place with
  | case1 place hin operation code hend => exact le_single_stop s place _ _
  | case2 place hin operation code hend literals rest ih =>
      have hoperation : place ≤ operation.stop := le_single_stop s place _ _
      have hliterals : operation.stop ≤ literals.stop := le_numbers_stop ..
      exact Int.le_trans (Int.le_trans hoperation hliterals) ih
  | case3 place hin => exact Int.le_refl _

/-- The payload at a place; behind the end of the part there is none. -/
def payload (kind : Option Payload) (place : Int) : Passage :=
  if place ≤ last then
    match kind with
    | none => { stop := place }
    | some .errorCode => .single s place 1 (errorItem s place)
    | some .program => program s last place
    | some .routine => .single s place 2 (routineItem s place)
  else { stop := place }

theorem le_payload_stop (kind : Option Payload) (place : Int) :
    place ≤ (payload s last kind place).stop := by
  unfold payload
  split
  · split
    · exact Int.le_refl _
    · exact le_single_stop s place _ _
    · exact le_program_stop s last place
    · exact le_single_stop s place _ _
  · exact Int.le_refl _

def phrases (q : Processor) (pages : Pages) (place : Int) : List Item :=
  if place ≤ last ∧ (s.image.byte? place).isSome = true then
    let d := q.instructionSet.decode s { offset := place }
    let kind := payload? pages s.options d.item
    let follow := payload s last kind d.cursor.offset
    { d.item with remark := (kind.map fun p => (p.remark : Text)) <|> d.item.remark } ::
      follow.items ++ phrases q pages follow.stop
  else []
  termination_by (last + 1 - place).toNat
  decreasing_by
    rename_i hin
    obtain ⟨n, hpos, -, hreads⟩ := q.sound.decode_reads s { offset := place }
    have hlt : place < d.cursor.offset := hreads.offset_lt hpos hin.2
    have hle : d.cursor.offset ≤ follow.stop := le_payload_stop ..
    show (last + 1 - follow.stop).toNat < (last + 1 - place).toNat
    omega

end

/-! ## The readers of the extension -/

namespace Calculator

theorem literal_reads (s : Setting) (pending : Nat) (c : Cursor) :
    ∃ n, 0 < n ∧ c.Reads s n (literal s pending c).cursor := by
  have hrest := Cursor.fetchMany_reads s (literalRest (c.fetch s).1) (c.fetch s).2
  exact ⟨_, Nat.succ_pos _, Nat.add_comm _ _ ▸ (c.fetch_reads s).trans hrest⟩

theorem entry_reads (s : Setting) (pending : Nat) (c : Cursor) :
    ∃ n, 0 < n ∧ c.Reads s n (entry s pending c).cursor := by
  unfold entry
  split
  · exact literal_reads s pending c
  · dsimp only
    split
    · exact ⟨2, Nat.two_pos, (c.fetch_reads s).trans (Cursor.fetch_reads s _)⟩
    · exact ⟨1, Nat.one_pos, c.fetch_reads s⟩

end Calculator

theorem errorCode_reads (s : Setting) (c : Cursor) : c.Reads s 1 (errorCode s c).2 :=
  c.fetch_reads s

theorem routineAddress_reads (s : Setting) (c : Cursor) : c.Reads s 2 (routineAddress s c).2 :=
  (c.fetch_reads s).trans (Cursor.fetch_reads s _)

theorem errorCode_item (s : Setting) (c : Cursor) :
    (errorCode s c).1 = errorItem s c.offset := by
  unfold errorCode errorItem
  dsimp only
  rw [c.fetch_byte s]
  rfl

theorem routineAddress_item {s : Setting} {c : Cursor} (hbase : s.image.base ≤ c.offset) :
    (routineAddress s c).1 = routineItem s c.offset := by
  have hhigh : ((c.fetch s).2.fetch s).1 = s.image.byteAt (c.offset + 1) :=
    (c.fetch_reads s).fetch_byte hbase
  unfold routineAddress routineItem
  dsimp only
  rw [c.fetch_byte s, hhigh]
  rfl

end RomListing.Spectrum

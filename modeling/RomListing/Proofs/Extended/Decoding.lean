import RomListing.Proofs.Cursor.Agreement
import RomListing.Proofs.Processor

/-! # The instructions of the Spectrum Next

An option tells whether the opcodes that only the Spectrum Next has are recognised. It counts for
an instruction whose first byte is `ED` and whose second one is such an opcode, and for no other:
not where `ED` stands behind an index prefix, nor where the image ends behind it, nor where such
bytes are an operand. Without the option these two bytes are an instruction that does nothing.
-/

namespace RomListing

def Options.allow (o : Options) (next : Bool) : Options := { o with extended := next }

def Setting.allow (s : Setting) (next : Bool) : Setting :=
  { s with options := s.options.allow next }

/-- A byte that is not 0 is one of the image. -/
theorem Image.byte?_of_byteAt_ne_zero {m : Image} {a : Int} (h : m.byteAt a ≠ 0) :
    m.byte? a = some (m.byteAt a) := by
  unfold byteAt at h ⊢
  cases hb : m.byte? a with
  | none => simp [hb] at h
  | some b => rfl

namespace Z80

/-- The bytes begin with `ED` and an opcode that only the Spectrum Next has. -/
def startsNext : List UInt8 → Bool
  | first :: second :: _ => first == 0xED && nextOpcodes.contains second.toNat
  | _ => false

end Z80

def Item.startsNext (item : Item) : Bool := Z80.startsNext item.opcodes

namespace Z80

/-- The image has `ED` at the place, and behind it an opcode that only the Spectrum Next has. -/
def NextAt (m : Image) (place : Int) : Prop :=
  ∃ code : UInt8, code.toNat ∈ nextOpcodes ∧
    m.byte? place = some 0xED ∧ m.byte? (place + 1) = some code

theorem zero_not_mem_nextOpcodes : 0 ∉ nextOpcodes := by decide

variable {s : Setting} {c : Cursor}

/-! ## Selection -/

theorem fetchOpcode_of_byte? {b : UInt8} (h : s.image.byte? c.offset = some b) :
    fetchOpcode s c =
      (b, { c with taken := c.taken.push b, offset := c.offset + 1, opcode := b.toNat }) := by
  simp [fetchOpcode, Cursor.fetch, h]

theorem byte?_of_fetchOpcode (h : (fetchOpcode s c).1 ≠ 0) :
    s.image.byte? c.offset = some (fetchOpcode s c).1 := by
  have hbyte : (fetchOpcode s c).1 = s.image.byteAt c.offset := c.fetch_byte s
  rw [hbyte] at h ⊢
  exact Image.byte?_of_byteAt_ne_zero h

/-- The bytes that select an instruction tell where one of the Spectrum Next is: one that is missing
is read as 0, which stands for no such opcode. -/
theorem nextAt_iff : NextAt s.image c.offset ↔ (fetchOpcode s c).1 = 0xED ∧
    (fetchOpcode s (fetchOpcode s c).2).1.toNat ∈ nextOpcodes := by
  constructor
  · rintro ⟨code, hcode, hlead, hbyte⟩
    rw [fetchOpcode_of_byte? hlead]
    have hsecond := fetchOpcode_of_byte? (s := s)
      (c := { c with taken := c.taken.push 0xED, offset := c.offset + 1, opcode := 0xED }) hbyte
    exact ⟨rfl, (congrArg (fun x => x.1.toNat ∈ nextOpcodes) hsecond).mpr hcode⟩
  · rintro ⟨hlead, hcode⟩
    have hfirst := byte?_of_fetchOpcode (s := s) (c := c) (hlead.symm ▸ by decide)
    have hsecond : (fetchOpcode s (fetchOpcode s c).2).1 ≠ 0 := by
      intro hzero
      rw [hzero] at hcode
      exact zero_not_mem_nextOpcodes hcode
    have hbyte := byte?_of_fetchOpcode hsecond
    rw [fetchOpcode_of_byte? hfirst] at hbyte hcode
    exact ⟨_, hcode, hlead ▸ hfirst, hbyte⟩

theorem select_extended (h : (fetchOpcode s c).1 = 0xED) : select s c =
    ⟨some (extendedPattern s.options.extended (fetchOpcode s (fetchOpcode s c).2).1), 8,
      (fetchOpcode s (fetchOpcode s c).2).2⟩ := if_pos h

theorem extendedPattern_of_not_mem {code : UInt8} (h : code.toNat ∉ nextOpcodes)
    (next next' : Bool) : extendedPattern next code = extendedPattern next' code := by
  simp [extendedPattern, h]

/-- Only an instruction of the Spectrum Next is selected by the option. -/
theorem select_allow (h : ¬NextAt s.image c.offset) (next : Bool) :
    select (s.allow next) c = select s c := by
  by_cases hlead : (fetchOpcode s c).1 = 0xED
  · have hcode : (fetchOpcode s (fetchOpcode s c).2).1.toNat ∉ nextOpcodes :=
      fun hcode => h (nextAt_iff.2 ⟨hlead, hcode⟩)
    have hallowed : select (s.allow next) c =
        ⟨some (extendedPattern next (fetchOpcode s (fetchOpcode s c).2).1), 8,
          (fetchOpcode s (fetchOpcode s c).2).2⟩ := select_extended hlead
    rw [hallowed, select_extended hlead, extendedPattern_of_not_mem hcode next s.options.extended]
  · exact (if_neg hlead).trans (if_neg hlead).symm

theorem select_of_nextAt (h : NextAt s.image c.offset) : ∃ code : UInt8,
    code.toNat ∈ nextOpcodes ∧ select s c = ⟨some (extendedPattern s.options.extended code), 8,
      { c with
        taken := (c.taken.push 0xED).push code
        offset := c.offset + 1 + 1
        opcode := code.toNat }⟩ := by
  obtain ⟨code, hcode, hlead, hbyte⟩ := h
  have hsecond := fetchOpcode_of_byte? (s := s)
    (c := { c with taken := c.taken.push 0xED, offset := c.offset + 1, opcode := 0xED }) hbyte
  refine ⟨code, hcode, ?_⟩
  rw [select_extended (by rw [fetchOpcode_of_byte? hlead]), fetchOpcode_of_byte? hlead]
  exact congrArg (fun x : UInt8 × Cursor =>
    Selection.mk (some (extendedPattern s.options.extended x.1)) 8 x.2) hsecond

/-! ## Instructions -/

/-- Without the option an instruction of the Spectrum Next is a `nop` of two bytes. -/
theorem decode_next_off (h : NextAt s.image c.offset) :
    let d := instructionSet.decode (s.allow false) c
    d.item.text = Text.ofString "nop" ∧ d.item.opcodes.length = 2 ∧ d.references = [] := by
  intro d
  obtain ⟨code, hcode, hselect⟩ := select_of_nextAt (s := s.allow false) (c := c.begin) h
  have hnop : extendedPattern false code = "nop" := by simp [extendedPattern, hcode]
  have hselect : instructionSet.select (s.allow false) c.begin = ⟨some "nop", 8,
      { c.begin with
        taken := #[0xED, code]
        offset := c.offset + 1 + 1
        opcode := code.toNat }⟩ := hnop ▸ hselect
  have hdecode : d = ⟨{
      address := instructionSet.shownAddress s (fold 0xFFFF c.offset)
      text := Text.ofString "nop"
      partition := s.options.partitionAt (fold 0xFFFF c.offset)
      timing := 8
      opcodes := [0xED, code] }, [],
        { c.begin with
          taken := #[0xED, code]
          offset := c.offset + 1 + 1
          opcode := code.toNat }⟩ := by
    show InstructionSet.decode _ _ _ = _
    unfold InstructionSet.decode
    rw [hselect]
    rfl
  rw [hdecode]
  exact ⟨rfl, rfl, rfl⟩

/-- Any other instruction, the labels that it uses and the place behind it do not depend on the
option. -/
theorem decode_allow (h : ¬NextAt s.image c.offset) (next : Bool) :
    instructionSet.decode (s.allow next) c = instructionSet.decode s c := by
  have hselect : instructionSet.select (s.allow next) c.begin = instructionSet.select s c.begin :=
    select_allow (c := c.begin) h next
  unfold InstructionSet.decode
  rw [hselect]
  rfl

/-- Recognised or not, an instruction lists the bytes of one of the Spectrum Next exactly where there
is one. -/
theorem startsNext_decode (s : Setting) (c : Cursor) :
    (instructionSet.decode s c).item.startsNext = true ↔ NextAt s.image c.offset := by
  rw [Item.startsNext, InstructionSet.Sound.decode_opcodes]
  constructor
  · intro hstarts
    obtain ⟨n, -, -, hreads⟩ := sound.decode_reads s c
    have htaken : (instructionSet.decode s c).cursor.taken.toList =
        s.image.slice c.offset (s.image.available c.offset n) := hreads.taken
    rw [htaken] at hstarts
    match hk : s.image.available c.offset n with
    | 0 | 1 =>
        rw [hk] at hstarts
        cases hstarts
    | k + 2 =>
        rw [hk] at hstarts
        have hstarts : (s.image.byteAt c.offset == 0xED &&
            nextOpcodes.contains (s.image.byteAt (c.offset + 1)).toNat) = true := hstarts
        rw [Bool.and_eq_true, beq_iff_eq, List.contains_iff_mem] at hstarts
        obtain ⟨hlead, hcode⟩ := hstarts
        have hne : s.image.byteAt (c.offset + 1) ≠ 0 := by
          intro hzero
          rw [hzero] at hcode
          exact zero_not_mem_nextOpcodes hcode
        exact ⟨_, hcode, hlead ▸ Image.byte?_of_byteAt_ne_zero (hlead.symm ▸ by decide),
          Image.byte?_of_byteAt_ne_zero hne⟩
  · intro hnext
    obtain ⟨code, hcode, hselect⟩ := select_of_nextAt (c := c.begin) hnext
    obtain ⟨n, hoperands⟩ := sound.operands_read s c
    have hselect : (instructionSet.select s c.begin).cursor.taken = #[0xED, code] :=
      congrArg (fun x : Selection => x.cursor.taken) hselect
    rw [hoperands.taken, hselect]
    simp [Z80.startsNext, hcode]

end Z80

/-! ## 6502 -/

theorem Mos6502.decode_allow (s : Setting) (next : Bool) (c : Cursor) :
    instructionSet.decode (s.allow next) c = instructionSet.decode s c := rfl

end RomListing

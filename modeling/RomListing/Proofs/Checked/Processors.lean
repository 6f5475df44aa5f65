import RomListing.Proofs.Checked.Patterns
import RomListing.Proofs.Processor

/-! # Checked processors

Selecting a pattern looks up the names of the shifts, and replacing a mark those of the
registers; both positions come from bits of the opcode. That the timing of a selected text can be
read is part of what makes a processor sound.
-/

namespace RomListing

/-! ## Operands -/

namespace Operand

def checkedByte (s : Setting) (form : Int → String) (c : Cursor) :
    Checked (Replacement × Cursor) := do
  let (b, c) ← c.checkedFetch s
  return (number (form b.toNat) b.toNat, c)

def checkedWord (s : Setting) (form : Int → String) (c : Cursor) :
    Checked (Replacement × Cursor) := do
  let (w, c) ← c.checkedFetchWord s
  return (number (form w) w, c)

def checkedAbsolute (s : Setting) (c : Cursor) : Checked (Replacement × Cursor) := do
  let (w, c) ← c.checkedFetchWord s
  return (label s c w, c)

def checkedRelative (s : Setting) (c : Cursor) : Checked (Replacement × Cursor) := do
  let (b, c) ← c.checkedFetch s
  return (label s c (s.addressOffset + c.opStart + 2 + signedByte b.toNat), c)

variable (s : Setting) (form : Int → String) (c : Cursor)

@[simp] theorem checkedByte_eq : checkedByte s form c = pure (byte s form c) := by
  simp only [checkedByte, byte, Cursor.checkedFetch_eq, pure_bind]

@[simp] theorem checkedWord_eq : checkedWord s form c = pure (word s form c) := by
  simp only [checkedWord, word, Cursor.checkedFetchWord_eq, pure_bind]

@[simp] theorem checkedAbsolute_eq : checkedAbsolute s c = pure (absolute s c) := by
  simp only [checkedAbsolute, absolute, Cursor.checkedFetchWord_eq, pure_bind]

@[simp] theorem checkedRelative_eq : checkedRelative s c = pure (relative s c) := by
  simp only [checkedRelative, relative, Cursor.checkedFetch_eq, pure_bind]

end Operand

/-! ## The Z80 -/

namespace Z80

def checkedBitPattern (opcode : UInt8) (operand : String) : Checked String := do
  if opcode < 0x40 then
    let shift ← Checked.get shifts (opcode / 8).toNat
    return shift ++ " " ++ operand
  else if opcode < 0x80 then return "bit ^b," ++ operand
  else if opcode < 0xC0 then return "res ^b," ++ operand
  else return "set ^b," ++ operand

def checkedIndexedBitPattern (opcode : UInt8) : Checked String := do
  let text ← checkedBitPattern opcode "(^X^D)"
  return if (0x40 ≤ opcode && opcode < 0x80) || opcode &&& 7 == 6 then text else text ++ ",^s"

def checkedFetchOpcode (s : Setting) (c : Cursor) : Checked (UInt8 × Cursor) := do
  let (b, c) ← c.checkedFetch s
  return (b, { c with opcode := b.toNat })

def checkedFetchDisplacement (s : Setting) (c : Cursor) : Checked Cursor := do
  let (b, c) ← c.checkedFetch s
  return { c with displacement := some b.toNat }

def checkedSelectIndexed (s : Setting) (c : Cursor) : Checked Selection := do
  let (b, c) ← checkedFetchOpcode s c
  if b = 0xCB then
    let c ← checkedFetchDisplacement s c
    let (b, c) ← checkedFetchOpcode s c
    let text ← checkedIndexedBitPattern b
    return ⟨some text, 12, c⟩
  else
    match indexedPattern b with
    | none => return ⟨none, 8, c⟩
    | some text =>
      if usesDisplacement text.toList then
        let c ← checkedFetchDisplacement s c
        return ⟨some text, 8, c⟩
      else return ⟨some text, 8, c⟩

def checkedSelect (s : Setting) (c : Cursor) : Checked Selection := do
  let (b, c) ← checkedFetchOpcode s c
  if b = 0xED then
    let (b, c) ← checkedFetchOpcode s c
    return ⟨some (extendedPattern s.options.extended b), 8, c⟩
  else if b = 0xCB then
    let (b, c) ← checkedFetchOpcode s c
    let text ← checkedBitPattern b "^s"
    return ⟨some text, 8, c⟩
  else if b = 0xDD then checkedSelectIndexed s { c with index := .ix }
  else if b = 0xFD then checkedSelectIndexed s { c with index := .iy }
  else return ⟨plainPatterns.lookup b.toNat, 4, c⟩

def checkedExpand (s : Setting) (letter : Letter) (c : Cursor) :
    Checked (Replacement × Cursor) := do
  match letter with
  | .char 'r' => Operand.checkedRelative s c
  | .char 'L' => Operand.checkedAbsolute s c
  | .char 's' =>
    let name ← Checked.get registers (c.opcode % 8)
    return ({ text := name }, c)
  | .char 'B' => Operand.checkedByte s s.options.byteText c
  | .char 'N' =>
    let (b, c) ← c.checkedFetch s
    return ({ text := s.options.byteText b.toNat
              remark := (nextRegisters.lookup b.toNat).map Text.ofString }, c)
  | .char 'W' => Operand.checkedWord s s.options.wordText c
  | .char 'w' =>
    let (high, c) ← c.checkedFetch s
    let (low, c) ← c.checkedFetch s
    let value := low.toNat + 0x100 * high.toNat
    return (Operand.number (s.options.wordText value) value, c)
  -- the other letters look nothing up
  | _ => return expand s letter c

section

variable (s : Setting) (c : Cursor)

theorem checkedBitPattern_eq (opcode : UInt8) (operand : String) :
    checkedBitPattern opcode operand = pure (bitPattern opcode operand) := by
  unfold checkedBitPattern bitPattern
  by_cases h : opcode < 0x40
  · have hlt : (opcode / 8).toNat < shifts.length := by
      have h : opcode.toNat < 64 := UInt8.lt_iff_toNat_lt.1 h
      rw [UInt8.toNat_div]
      show opcode.toNat / 8 < 8
      omega
    have hget := List.getElem?_eq_getElem hlt
    have hshift : Checked.get shifts (opcode / 8).toNat = pure _ :=
      Checked.get_eq (Int.natCast_nonneg _) hget
    rw [if_pos h, if_pos h, List.getD_eq_getElem?_getD, hget, hshift]
    rfl
  · rw [if_neg h, if_neg h]
    split
    · rfl
    · split <;> rfl

theorem checkedIndexedBitPattern_eq (opcode : UInt8) :
    checkedIndexedBitPattern opcode = pure (indexedBitPattern opcode) := by
  rw [checkedIndexedBitPattern, checkedBitPattern_eq]
  rfl

theorem checkedFetchOpcode_eq : checkedFetchOpcode s c = pure (fetchOpcode s c) := by
  rw [checkedFetchOpcode, Cursor.checkedFetch_eq]
  rfl

theorem checkedFetchDisplacement_eq :
    checkedFetchDisplacement s c = pure (fetchDisplacement s c) := by
  rw [checkedFetchDisplacement, Cursor.checkedFetch_eq]
  rfl

theorem checkedSelectIndexed_eq : checkedSelectIndexed s c = pure (selectIndexed s c) := by
  unfold checkedSelectIndexed selectIndexed
  simp only [checkedFetchOpcode_eq, checkedFetchDisplacement_eq, checkedIndexedBitPattern_eq,
    pure_bind]
  split
  · rfl
  · cases indexedPattern (fetchOpcode s c).1 with
    | none => rfl
    | some text =>
        dsimp only
        split <;> rfl

theorem checkedSelect_eq : checkedSelect s c = pure (select s c) := by
  unfold checkedSelect select
  simp only [checkedFetchOpcode_eq, checkedBitPattern_eq, checkedSelectIndexed_eq, pure_bind]
  split
  · rfl
  split
  · rfl
  split
  · rfl
  split <;> rfl

theorem checkedExpand_eq (letter : Letter) :
    checkedExpand s letter c = pure (expand s letter c) := by
  unfold checkedExpand
  split
  · exact Operand.checkedRelative_eq s c
  · exact Operand.checkedAbsolute_eq s c
  · have hnonneg : 0 ≤ c.opcode % 8 := Int.emod_nonneg c.opcode (by decide)
    have hlt : (c.opcode % 8).toNat < registers.length := by
      have := Int.emod_lt_of_pos c.opcode (b := 8) (by decide)
      show (c.opcode % 8).toNat < 8
      omega
    have hget := List.getElem?_eq_getElem hlt
    have hname : registers.getD (c.opcode % 8).toNat "" = registers[(c.opcode % 8).toNat] := by
      rw [List.getD_eq_getElem?_getD, hget]
      rfl
    rw [Checked.get_eq hnonneg hget, pure_bind, ← hname]
    rfl
  · exact Operand.checkedByte_eq s _ c
  · rw [Cursor.checkedFetch_eq]
    rfl
  · exact Operand.checkedWord_eq s _ c
  · simp only [Cursor.checkedFetch_eq, pure_bind]
    rfl
  · rfl

end

end Z80

/-! ## The 6502 -/

namespace Mos6502

def checkedSelect (s : Setting) (c : Cursor) : Checked Selection := do
  let (b, c) ← c.checkedFetch s
  return ⟨patterns.lookup b.toNat, 2, { c with opcode := b.toNat }⟩

def checkedExpand (s : Setting) (letter : Letter) (c : Cursor) :
    Checked (Replacement × Cursor) :=
  let byte := s.options.byteText
  let word := s.options.wordText
  match letter with
  | .char 'I' => Operand.checkedByte s (fun v => "#" ++ byte v) c
  | .char 'Z' => Operand.checkedByte s byte c
  | .char 'X' => Operand.checkedByte s (fun v => byte v ++ ",x") c
  | .char 'Y' => Operand.checkedByte s (fun v => byte v ++ ",y") c
  | .char 'N' => Operand.checkedByte s (fun v => "(" ++ byte v ++ ",x)") c
  | .char 'M' => Operand.checkedByte s (fun v => "(" ++ byte v ++ "),y") c
  | .char 'A' => Operand.checkedWord s word c
  | .char 'U' => Operand.checkedWord s (fun v => word v ++ ",x") c
  | .char 'V' => Operand.checkedWord s (fun v => word v ++ ",y") c
  | .char 'P' => Operand.checkedWord s (fun v => "(" ++ word v ++ ")") c
  | .char 'J' => Operand.checkedAbsolute s c
  | .char 'R' => Operand.checkedRelative s c
  -- the other letters look nothing up
  | _ => return expand s letter c

theorem checkedSelect_eq (s : Setting) (c : Cursor) : checkedSelect s c = pure (select s c) := by
  rw [checkedSelect, Cursor.checkedFetch_eq]
  rfl

theorem checkedExpand_eq (s : Setting) (letter : Letter) (c : Cursor) :
    checkedExpand s letter c = pure (expand s letter c) := by
  unfold checkedExpand
  simp only [Operand.checkedByte_eq, Operand.checkedWord_eq, Operand.checkedAbsolute_eq,
    Operand.checkedRelative_eq]
  split <;> rfl

end Mos6502

/-! ## Both -/

namespace Processor

theorem timed (q : Processor) (s : Setting) (c : Cursor) (text : String)
    (h : (q.instructionSet.select s c).text = some text) : Pattern.timed text = true := by
  obtain ⟨_, -, -, -, hfits⟩ := q.sound.selects s c
  exact hfits.timed h

def twin : (q : Processor) → q.instructionSet.Twin
  | z80 => ⟨Z80.checkedSelect, Z80.checkedExpand, Z80.checkedSelect_eq,
      fun s letter c => Z80.checkedExpand_eq s c letter, timed z80⟩
  | mos6502 => ⟨Mos6502.checkedSelect, Mos6502.checkedExpand, Mos6502.checkedSelect_eq,
      Mos6502.checkedExpand_eq, timed mos6502⟩

end Processor

end RomListing

import RomListing.Proofs.Mos6502.Alphabet
import RomListing.Proofs.Z80.Alphabet

/-! # The processors

The instruction sets that the theory of passes is about, each with what makes it sound.
-/

namespace RomListing

inductive Processor where
  | z80
  | mos6502
  deriving DecidableEq, Repr

namespace Processor

def instructionSet : Processor → InstructionSet
  | z80 => Z80.instructionSet
  | mos6502 => Mos6502.instructionSet

def alphabet : Processor → Alphabet
  | z80 => Z80.alphabet
  | mos6502 => Mos6502.alphabet

def longest : Processor → Nat
  | z80 => 4
  | mos6502 => 3

theorem sound (q : Processor) : q.instructionSet.Sound q.alphabet q.longest := by
  cases q with
  | z80 => exact Z80.sound
  | mos6502 => exact Mos6502.sound

theorem natural (q : Processor) : q.instructionSet.Natural := by
  cases q with
  | z80 => exact Z80.natural
  | mos6502 => exact Mos6502.natural

/-- The byte 0 selects a pattern without marks. -/
theorem select_zero (q : Processor) {s : Setting} {place : Int}
    (hz : s.image.byte? place = some 0) :
    let selection := q.instructionSet.select s (Cursor.begin { offset := place })
    selection.cursor.taken = #[0] ∧ Pattern.marks selection.pattern.text = [] := by
  have hfetch : (Cursor.begin { offset := place }).fetch s =
      (0, { offset := place + 1, opStart := place, taken := #[0] }) := by
    simp [Cursor.fetch, Cursor.begin, hz]
  -- the pattern comes from the text alone, so that a fixed cursor does for its marks
  cases q with
  | z80 =>
      have hselect : Z80.select s (Cursor.begin { offset := place }) =
          ⟨some "nop", 4, { offset := place + 1, opStart := place, taken := #[0] }⟩ := by
        rw [Z80.select, Z80.fetchOpcode, hfetch]
        rfl
      simp only [instructionSet, Z80.instructionSet, hselect]
      exact ⟨trivial, show Pattern.marks
        (Selection.pattern ⟨some "nop", 4, { offset := 0 }⟩).text = [] by decide +kernel⟩
  | mos6502 =>
      have hselect : Mos6502.select s (Cursor.begin { offset := place }) =
          ⟨some "brk|7", 2, { offset := place + 1, opStart := place, taken := #[0] }⟩ := by
        rw [Mos6502.select, hfetch]
        rfl
      simp only [instructionSet, Mos6502.instructionSet, hselect]
      exact ⟨trivial, show Pattern.marks
        (Selection.pattern ⟨some "brk|7", 2, { offset := 0 }⟩).text = [] by decide +kernel⟩

/-- The byte 0 is an instruction of its own. -/
theorem decode_zero (q : Processor) {s : Setting} {place : Int}
    (hz : s.image.byte? place = some 0) :
    (q.instructionSet.decode s { offset := place }).item.opcodes.length = 1 := by
  obtain ⟨htaken, hmarks⟩ := q.select_zero hz
  rw [InstructionSet.Sound.decode_opcodes, q.sound.decode_unmarked s _ hmarks, htaken]
  rfl

end Processor

end RomListing

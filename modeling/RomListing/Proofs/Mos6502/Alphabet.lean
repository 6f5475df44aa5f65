import RomListing.Mos6502.Instructions
import RomListing.Proofs.Decoding

/-! # The 6502 is sound

An instruction takes at most three bytes: its opcode and the operand of its one letter.
-/

namespace RomListing.Mos6502

def alphabet : Alphabet where
  bytes
    | .char 'I' | .char 'Z' | .char 'X' | .char 'Y' | .char 'N' | .char 'M' | .char 'R' => 1
    | .char 'A' | .char 'U' | .char 'V' | .char 'P' | .char 'J' => 2
    | _ => 0
  isLabel
    | .char 'J' | .char 'R' => true
    | _ => false

theorem expand_acts (s : Setting) (letter : Letter) (c : Cursor) :
    Alphabet.Acts s c (alphabet.bytes letter) (alphabet.isLabel letter) (expand s letter c) := by
  have hbyte := s.options.caretFree_byteText
  have hword := s.options.caretFree_wordText
  unfold expand
  dsimp only
  split
  · exact Operand.acts_byte s c fun v => by simp only [Text.caretFree_append, hbyte]; decide
  · exact Operand.acts_byte s c hbyte
  · exact Operand.acts_byte s c fun v => by simp only [Text.caretFree_append, hbyte]; decide
  · exact Operand.acts_byte s c fun v => by simp only [Text.caretFree_append, hbyte]; decide
  · exact Operand.acts_byte s c fun v => by simp only [Text.caretFree_append, hbyte]; decide
  · exact Operand.acts_byte s c fun v => by simp only [Text.caretFree_append, hbyte]; decide
  · exact Operand.acts_word s c hword
  · exact Operand.acts_word s c fun v => by simp only [Text.caretFree_append, hword]; decide
  · exact Operand.acts_word s c fun v => by simp only [Text.caretFree_append, hword]; decide
  · exact Operand.acts_word s c fun v => by simp only [Text.caretFree_append, hword]; decide
  · exact Operand.acts_absolute s c
  · exact Operand.acts_relative s c
  · have hb : alphabet.bytes letter = 0 := by simp_all [alphabet]
    have hl : alphabet.isLabel letter = false := by simp_all [alphabet]
    rw [hb, hl]
    exact Operand.acts_empty s c

theorem natural : instructionSet.Natural where
  select hf c := by
    simp only [instructionSet, select, hf.fetch, hf.setOpcode]
  expand hf letter c := by
    simp only [instructionSet]
    unfold expand
    simp only [hf.options]
    split
    case h_7 | h_8 | h_9 | h_10 => exact hf.word _ c
    case h_11 => exact hf.absolute c
    case h_12 => exact hf.relative c
    case h_13 => rfl
    all_goals exact hf.byte _ c

/-- Every pattern asks for two bytes at most. -/
theorem fits_patterns : ∀ e ∈ patterns, alphabet.fits 2 e.2 = true := by decide +kernel

theorem sound : instructionSet.Sound alphabet 3 where
  mask := rfl
  describes s := ⟨expand_acts s, fun letter o => natural.expand (Cursor.view_spill s o) letter⟩
  selects s c := by
    refine ⟨1, by decide, by decide, (c.fetch_reads s).registers _ _ _, fun text htext => ?_⟩
    exact forall_lookup (P := (alphabet.fits 2 · = true)) fits_patterns htext
  anew s c := by
    obtain ⟨hbyte, hrest⟩ := c.fetch_begin s
    simp only [instructionSet, select]
    rw [hbyte, hrest]

end RomListing.Mos6502

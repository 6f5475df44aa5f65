import RomListing.Proofs.Mos6502.Alphabet
import RomListing.Proofs.Wording

/-! # The words of the 6502

One letter writes all operands of an instruction, with what its addressing mode puts around them.
-/

namespace RomListing

open Cursor (Kin)

namespace Mos6502

/-- One opcode selects, and everything behind it is an operand. -/
def wording : Wording where
  parts bytes := (bytes.take 1, bytes.drop 1)
  text _ selector := selector.head?.bind fun opcode => patterns.lookup opcode.toNat
  index _ := .none
  varies letter := alphabet.bytes letter != 0
  shows _ := false
  closes _ := false

theorem separated_patterns : ∀ e ∈ patterns, Pattern.separated wording.varies wording.closes
    (Pattern.cut '|' (Text.ofString e.2)).1 = true := by
  decide +kernel

theorem faithful_lead {α : Type} {form : α → String}
    (h : Operand.Faithful wording.closes form) (lead : String) :
    Operand.Faithful wording.closes fun a => lead ++ form a where
  unclosed _ _ _ := rfl
  inj a b hab := h.inj a b (String.append_right_inj _ |>.1 hab)

theorem faithful_trail {α : Type} {form : α → String}
    (h : Operand.Faithful wording.closes form) (trail : String) :
    Operand.Faithful wording.closes fun a => form a ++ trail where
  unclosed _ _ _ := rfl
  inj a b hab := h.inj a b (String.append_left_inj _ |>.1 hab)

theorem expand_tells {s s' : Setting} {c c' : Cursor} (h : Kin s s' c c') (letter : Letter) :
    Alphabet.Tells (wording.varies letter) (wording.shows letter) wording.closes s s' c c'
      (expand s letter c) (expand s' letter c') := by
  have hcloses : ∀ x ∈ Options.symbols, wording.closes (.char x) = false := fun _ _ => rfl
  have hbyte := Operand.Faithful.byte (o := s.options) hcloses
  have hword := Operand.Faithful.word (o := s.options) hcloses
  unfold expand
  simp only [h.options]
  split
  case h_1 => exact Operand.tells_byte h (faithful_lead hbyte "#") rfl rfl
  case h_2 => exact Operand.tells_byte h hbyte rfl rfl
  case h_3 => exact Operand.tells_byte h (faithful_trail hbyte ",x") rfl rfl
  case h_4 => exact Operand.tells_byte h (faithful_trail hbyte ",y") rfl rfl
  case h_5 => exact Operand.tells_byte h (faithful_trail (faithful_lead hbyte "(") ",x)") rfl rfl
  case h_6 => exact Operand.tells_byte h (faithful_trail (faithful_lead hbyte "(") "),y") rfl rfl
  case h_7 => exact Operand.tells_word h hword rfl rfl
  case h_8 => exact Operand.tells_word h (faithful_trail hword ",x") rfl rfl
  case h_9 => exact Operand.tells_word h (faithful_trail hword ",y") rfl rfl
  case h_10 => exact Operand.tells_word h (faithful_trail (faithful_lead hword "(") ")") rfl rfl
  case h_11 => exact Operand.tells_absolute h hcloses
  case h_12 => exact Operand.tells_relative h hcloses
  case h_13 =>
    have hvaries : wording.varies letter = false := by simp_all [wording, alphabet]
    rw [hvaries]
    exact Operand.tells_same h rfl

theorem words : instructionSet.Words wording where
  caret := rfl
  expand := expand_tells
  separated _ _ text h := separated_patterns (_, text) (mem_of_lookup h)
  select s c ho := by
    have htaken := (Cursor.fetch_taken ho).2
    refine ⟨[(c.begin.fetch s).1], none, fun operands => ?_, rfl, rfl, ?_, ?_, ?_⟩
    · show wording.parts ((c.begin.fetch s).2.taken.toList ++ operands) = _
      rw [htaken]
      rfl
    · exact c.begin.fetch_index s
    · exact c.begin.fetch_displacement s
    · cases (instructionSet.select s c.begin).text <;> simp [wording]

end Mos6502

end RomListing

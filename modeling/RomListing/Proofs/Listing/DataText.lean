import RomListing.DataLines
import RomListing.Proofs.Pattern.Numbers
import RomListing.Proofs.Processor

/-! # Data lines are read back

The text of a data line is a directive and numerals with commas between them. No numeral holds
a comma or a blank, so that the text falls apart at its commas into the numerals it was made of.
What is read tells bytes from words, and with the low byte of each word first it is what the line
lists.
-/

namespace RomListing

namespace Text

variable {α : Type} [DecidableEq α] {bar : α}

theorem split_of_not_mem {part : List α} (h : bar ∉ part) : split bar part = [part] := by
  induction part with
  | nil => rfl
  | cons a part ih =>
      rw [List.mem_cons, not_or] at h
      rw [split, if_neg (Ne.symm h.1), ih h.2]

theorem split_append {part : List α} (h : bar ∉ part) (rest : List α) :
    split bar (part ++ bar :: rest) = part :: split bar rest := by
  induction part with
  | nil => exact if_pos rfl
  | cons a part ih =>
      rw [List.mem_cons, not_or] at h
      rw [List.cons_append, split, if_neg (Ne.symm h.1), ih h.2]

end Text

namespace Numeral

def numbers? (operands : List Char) : Option (List Nat) :=
  (Text.split ',' operands).mapM fun part => number? (part.dropWhile (· = ' '))

/-- Blanks in front of a numeral count for nothing. -/
theorem Spells.part {text : String} {n : Nat} (h : Spells text n) :
    number? ((' ' :: text.toList).dropWhile (· = ' ')) = some n := by
  rw [List.dropWhile_cons_of_pos (by decide)]
  cases htext : text.toList with
  | nil => simpa [htext] using h.number
  | cons c rest =>
      have hblank : c ≠ ' ' := by
        rintro rfl
        exact h.lacks (by decide) (htext ▸ List.mem_cons_self)
      rw [List.dropWhile_cons_of_neg (by simpa using hblank), ← htext]
      exact h.number

/-- Numerals with commas between them are read one by one. -/
theorem numbers?_intercalate {α : Type} {name : α → String} {value : α → Nat}
    (h : ∀ a, Spells (name a) (value a)) {as : List α} (hne : as ≠ []) :
    numbers? (' ' :: (", ".intercalate (as.map name)).toList) = some (as.map value) := by
  have hcomma (a : α) : ',' ∉ ' ' :: (name a).toList := by
    simpa using (h a).lacks (c := ',') (by decide)
  induction as with
  | nil => contradiction
  | cons a as ih =>
      cases as with
      | nil =>
          rw [List.map_singleton, String.intercalate_singleton]
          unfold numbers?
          rw [Text.split_of_not_mem (hcomma a), List.mapM_cons, (h a).part]
          rfl
      | cons next as =>
          have htail := ih (List.cons_ne_nil _ _)
          have hmore : (next :: as).map name ≠ [] := List.cons_ne_nil _ _
          have hsplit (rest : String) : ' ' :: (name a ++ ", " ++ rest).toList =
              (' ' :: (name a).toList) ++ ',' :: ' ' :: rest.toList := by simp
          rw [List.map_cons, String.intercalate_cons_of_ne_nil hmore, hsplit]
          unfold numbers? at htail ⊢
          rw [Text.split_append (hcomma a), List.mapM_cons, (h a).part, htail]
          rfl

end Numeral

open Numeral (Spells number? numbers?)

theorem InstructionSet.spells_byteOperand (o : Options) (b : UInt8) :
    Spells (byteOperand o b) b.toNat := by
  unfold byteOperand
  split
  · exact Numeral.spells_decimal 3 b.toNat
  · exact Numeral.spells_hex 2 b.toNat

/-! ## The reader -/

inductive DataLine where
  | bytes (values : List Nat)
  | words (values : List Nat)
  deriving DecidableEq, Repr

namespace DataLine

/-- What the numbers are in memory: the low byte of a word comes first. -/
def memory : DataLine → List UInt8
  | .bytes values => values.map UInt8.ofNat
  | .words values => values.flatMap fun v => [UInt8.ofNat v, UInt8.ofNat (v / 0x100)]

def read? (cpu : InstructionSet) (t : Text) : Option DataLine :=
  let directive := t.chars.takeWhile (· ≠ ' ')
  let numbers := numbers? (t.chars.dropWhile (· ≠ ' '))
  if directive = cpu.byteDirective.toList then numbers.map .bytes
  else if directive = cpu.wordDirective.toList then numbers.map .words
  else none

/-- The directives end at the first blank, and bytes are not taken for words. -/
structure Apart (cpu : InstructionSet) : Prop where
  byte : ' ' ∉ cpu.byteDirective.toList
  word : ' ' ∉ cpu.wordDirective.toList
  ne : cpu.wordDirective ≠ cpu.byteDirective

theorem apart (q : Processor) : Apart q.instructionSet := by
  cases q with
  | z80 => exact ⟨by decide, by decide, by decide⟩
  | mos6502 => exact ⟨by decide, by decide, by decide⟩

theorem memory_bytes (bs : List UInt8) : (bytes (bs.map UInt8.toNat)).memory = bs := by
  simp [memory, Function.comp_def]

/-- A word falls into the bytes it was made of. -/
theorem memory_words (pairs : List (UInt8 × UInt8)) :
    (words (pairs.map fun (low, high) => low.toNat + 0x100 * high.toNat)).memory =
      pairs.flatMap fun (low, high) => [low, high] := by
  have hlow (low high : UInt8) : UInt8.ofNat (low.toNat + 0x100 * high.toNat) = low := by
    have := low.toNat_lt
    exact UInt8.toNat_inj.1 (by rw [UInt8.toNat_ofNat']; omega)
  have hhigh (low high : UInt8) :
      UInt8.ofNat ((low.toNat + 0x100 * high.toNat) / 0x100) = high := by
    have := low.toNat_lt
    have := high.toNat_lt
    exact UInt8.toNat_inj.1 (by rw [UInt8.toNat_ofNat']; omega)
  simp only [memory, List.flatMap_map, hlow, hhigh]

variable {cpu : InstructionSet} {n : Nat}

theorem chars_of_directive {directive : String} (h : ' ' ∉ directive.toList) (operands : String) :
    let cs := (Text.ofString (directive ++ " " ++ operands)).chars
    cs.takeWhile (· ≠ ' ') = directive.toList ∧
      cs.dropWhile (· ≠ ' ') = ' ' :: operands.toList := by
  intro cs
  have hchars : cs = directive.toList ++ ' ' :: operands.toList := by
    show (Text.ofChars _).chars = _
    rw [Text.chars_ofChars, String.toList_append, String.toList_append, List.append_assoc]
    rfl
  have hall : ∀ c ∈ directive.toList, decide (c ≠ ' ') = true := by
    intro c hc
    rw [decide_eq_true_eq]
    rintro rfl
    exact h hc
  rw [hchars, List.takeWhile_append_of_pos hall, List.dropWhile_append_of_pos hall]
  simp

theorem read?_bytes (h : Apart cpu) (o : Options) {bs : List UInt8} (hne : bs ≠ []) :
    read? cpu (Text.ofString (cpu.byteDirective ++ " " ++
        ", ".intercalate (bs.map (InstructionSet.byteOperand o)))) =
      some (.bytes (bs.map UInt8.toNat)) := by
  obtain ⟨hdirective, hoperands⟩ := chars_of_directive h.byte
    (", ".intercalate (bs.map (InstructionSet.byteOperand o)))
  unfold read?
  dsimp only
  rw [hdirective, hoperands, if_pos rfl,
    Numeral.numbers?_intercalate (InstructionSet.spells_byteOperand o) hne]
  rfl

theorem read?_words (h : Apart cpu) (o : Options) {values : List Nat} (hne : values ≠ []) :
    read? cpu (Text.ofString (cpu.wordDirective ++ " " ++
        ", ".intercalate (values.map fun (v : Nat) => o.wordText v))) =
      some (.words values) := by
  obtain ⟨hdirective, hoperands⟩ := chars_of_directive h.word
    (", ".intercalate (values.map fun (v : Nat) => o.wordText v))
  have hspells (n : Nat) : Spells (o.wordText n) (id n) := o.spells_wordText n
  have hother : cpu.wordDirective.toList ≠ cpu.byteDirective.toList := fun heq =>
    h.ne (String.toList_inj.1 heq)
  unfold read?
  dsimp only
  rw [hdirective, hoperands, if_neg hother, if_pos rfl,
    Numeral.numbers?_intercalate hspells hne, List.map_id]
  rfl

/-- A byte line is read as its bytes. -/
theorem read?_byteLine (h : Apart cpu) (s : Setting) (place : Int) (hpos : 0 < n) :
    let line := cpu.byteLine s place n
    read? cpu line.text = some (.bytes (line.opcodes.map UInt8.toNat)) := by
  refine read?_bytes h s.options ?_
  simpa using Nat.ne_of_gt hpos

/-- A word line is read as its words. -/
theorem read?_wordLine (h : Apart cpu) (s : Setting) (place : Int) (hpos : 0 < n) :
    let line := cpu.wordLine s place n
    ∃ values, values.length = n ∧ read? cpu line.text = some (.words values) ∧
      (words values).memory = line.opcodes := by
  intro line
  let pairs := (List.range n).map fun (k : Nat) =>
    (s.image.byteAt (place + 2 * k), s.image.byteAt (place + 2 * k + 1))
  let values := pairs.map fun (low, high) => low.toNat + 0x100 * high.toNat
  have hlength : values.length = n := by simp [values, pairs]
  have hne : values ≠ [] := List.ne_nil_of_length_pos (hlength.symm ▸ hpos)
  have hread := read?_words h s.options hne
  rw [List.map_map] at hread
  exact ⟨values, hlength, hread, memory_words pairs⟩

end DataLine

end RomListing

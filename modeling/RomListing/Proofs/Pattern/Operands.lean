import RomListing.Proofs.Cursor.Reading
import RomListing.Proofs.Cursor.Views
import RomListing.Proofs.Pattern.Marks

/-! # What a letter does

A letter reads a fixed number of bytes. It either uses one label, under the address of the
instruction that is being read, or none. Its replacement is made of numerals and names, none
of which holds a caret.
-/

namespace RomListing

namespace Numeral

def symbols : List Char := "-0123456789ABCDEF".toList

theorem exists_digitChar {base : Nat} (hb : 1 < base) {n : Nat} {c : Char}
    (h : c ∈ Nat.toDigits base n) : ∃ d < base, c = d.digitChar := by
  induction n using Nat.strongRecOn with
  | _ n ih =>
      rw [Nat.toDigits_eq_if hb] at h
      split at h
      · exact ⟨n, by assumption, List.mem_singleton.1 h⟩
      · rcases List.mem_append.1 h with h | h
        · exact ih (n / base) (Nat.div_lt_self (by omega) hb) h
        · exact ⟨n % base, Nat.mod_lt _ (by omega), List.mem_singleton.1 h⟩

private theorem hex_digit_mem : ∀ d < 16, d.digitChar.toUpper ∈ symbols := by decide

private theorem decimal_digit_mem : ∀ d < 10, d.digitChar ∈ symbols := by decide

theorem hexDigits_subset (n : Nat) : hexDigits n ⊆ symbols := by
  intro c hc
  obtain ⟨b, hb, rfl⟩ := List.mem_map.1 hc
  obtain ⟨d, hd, rfl⟩ := exists_digitChar (by decide) hb
  exact hex_digit_mem d hd

theorem decimalDigits_subset (n : Nat) : decimalDigits n ⊆ symbols := by
  intro c hc
  obtain ⟨d, hd, rfl⟩ := exists_digitChar (by decide) hc
  exact decimal_digit_mem d hd

theorem padded_subset {digits : Nat → List Char} (h : ∀ n, digits n ⊆ symbols) (width : Nat)
    (v : Int) : (padded digits width v).toList ⊆ symbols := by
  have hzero : '0' ∈ symbols := by decide
  have hminus : '-' ∈ symbols := by decide
  have hpad (n w : Nat) : (digits n).leftpad w '0' ⊆ symbols := by
    intro c hc
    rcases List.mem_append.1 hc with hc | hc
    · rw [List.eq_of_mem_replicate hc]
      exact hzero
    · exact h n hc
  cases v with
  | ofNat n => simpa [padded] using hpad n width
  | negSucc n => simpa [padded, hminus] using hpad (n + 1) (width - 1)

end Numeral

/-! ## What operands are made of -/

namespace Options

/-- The characters of numerals, of the names of labels and of displacements. -/
def symbols : List Char := 'L' :: '+' :: '$' :: Numeral.symbols

theorem numeral_subset : Numeral.symbols ⊆ symbols := List.subset_append_right ['L', '+', '$'] _

theorem hex_subset (width : Nat) (v : Int) :
    ("$" ++ Numeral.padded Numeral.hexDigits width v).toList ⊆ symbols := by
  rw [String.toList_append]
  exact List.append_subset.2 ⟨by decide,
    List.Subset.trans (Numeral.padded_subset Numeral.hexDigits_subset width v) numeral_subset⟩

theorem decimal_subset (width : Nat) (v : Int) :
    (Numeral.padded Numeral.decimalDigits width v).toList ⊆ symbols :=
  List.Subset.trans (Numeral.padded_subset Numeral.decimalDigits_subset width v) numeral_subset

theorem byteText_subset (o : Options) (v : Int) : (o.byteText v).toList ⊆ symbols := by
  unfold byteText
  split
  · exact decimal_subset 0 v
  · exact hex_subset 2 v

theorem wordText_subset (o : Options) (v : Int) : (o.wordText v).toList ⊆ symbols := by
  unfold wordText
  split
  · exact decimal_subset 0 v
  · exact hex_subset 4 v

theorem labelName_subset (o : Options) (a : Int) : (o.labelName a).toList ⊆ symbols := by
  rw [labelName, String.toList_append]
  refine List.append_subset.2 ⟨?_, List.Subset.trans ?_ numeral_subset⟩
  · unfold labelLead
    split <;> decide
  · unfold labelNumeral
    split
    · exact Numeral.padded_subset Numeral.decimalDigits_subset 5 a
    · exact Numeral.padded_subset Numeral.hexDigits_subset 4 a

end Options

/-! ## Texts without carets -/

namespace Text

def CaretFree (s : String) : Prop := '^' ∉ s.toList

instance (s : String) : Decidable (CaretFree s) := inferInstanceAs (Decidable (_ ∉ _))

theorem not_mem_ofString {s : String} : .char '^' ∉ ofString s ↔ CaretFree s := by
  simp [ofString, ofChars, CaretFree]

@[simp] theorem caretFree_append {s t : String} :
    CaretFree (s ++ t) ↔ CaretFree s ∧ CaretFree t := by
  simp [CaretFree, not_or]

theorem caretFree_of_subset {s : String} (h : s.toList ⊆ Options.symbols) : CaretFree s :=
  fun hc => absurd (h hc) (by decide)

theorem caretFree_decimal (v : Int) : CaretFree (Numeral.decimal v) :=
  caretFree_of_subset (Options.decimal_subset 0 v)

end Text

namespace Options

open Text

@[simp] theorem caretFree_byteText (o : Options) (v : Int) : CaretFree (o.byteText v) :=
  caretFree_of_subset (o.byteText_subset v)

@[simp] theorem caretFree_wordText (o : Options) (v : Int) : CaretFree (o.wordText v) :=
  caretFree_of_subset (o.wordText_subset v)

theorem caretFree_labelName (o : Options) (a : Int) : CaretFree (o.labelName a) :=
  caretFree_of_subset (o.labelName_subset a)

theorem labelName_ne_nil (o : Options) (a : Int) : Text.ofString (o.labelName a) ≠ [] := by
  unfold labelName labelLead Text.ofString Text.ofChars
  split <;> simp

end Options

/-! ## Letters -/

/-- The overflow mark also set if it was before. Reading never looks at the mark, so what was
read with it and without it differs in nothing else. -/
def Cursor.spill (o : Bool) (c : Cursor) : Cursor := { c with overflow := o || c.overflow }

theorem Cursor.fetch_spill (s : Setting) (o : Bool) (c : Cursor) :
    (c.spill o).fetch s = ((c.fetch s).1, (c.fetch s).2.spill o) := by
  unfold fetch spill
  cases s.image.byte? c.offset <;> simp

theorem Cursor.view_spill (s : Setting) (o : Bool) : View s s (spill o) where
  options := rfl
  fetch := fetch_spill s o
  registers _ _ _ _ := rfl
  start _ := rfl

/-- Of what was left in a cursor the first byte of an instruction leaves nothing but the
overflow mark, once the byte is noted as the opcode. -/
theorem Cursor.fetch_begin (s : Setting) (c : Cursor) :
    (c.begin.fetch s).1 = ((begin { offset := c.offset }).fetch s).1 ∧
      ∀ v, { (c.begin.fetch s).2 with opcode := v } =
        spill c.overflow { ((begin { offset := c.offset }).fetch s).2 with opcode := v } := by
  unfold fetch begin spill
  cases s.image.byte? c.offset <;> simp

structure Alphabet where
  bytes : Letter → Nat
  isLabel : Letter → Bool

/-- What an expander does for one letter at one cursor. -/
structure Alphabet.Acts (s : Setting) (c : Cursor) (bytes : Nat) (isLabel : Bool)
    (x : Replacement × Cursor) : Prop where
  caretFree : .char '^' ∉ x.1.text
  reads : c.Reads s bytes x.2
  silent : isLabel = false → x.1.reference = none ∧ x.1.isLabel = false
  refers : isLabel = true → ∃ target, x.1.isLabel = true ∧ x.1.named = some target ∧
    x.1.reference = some ⟨target, s.shownAddress c.opStart⟩

/-- The expander does for every letter what the alphabet says, and never looks at the overflow
mark. -/
structure Alphabet.Describes (a : Alphabet) (s : Setting) (e : Expander) : Prop where
  acts : ∀ letter c, Acts s c (a.bytes letter) (a.isLabel letter) (e letter c)
  spill : ∀ letter o c, e letter (c.spill o) = ((e letter c).1, (e letter c).2.spill o)

namespace Operand

open Alphabet

variable (s : Setting) (c : Cursor)

theorem acts_plain {text : String} (h : Text.CaretFree text) :
    Acts s c 0 false ({ text := text }, c) where
  caretFree := Text.not_mem_ofString.2 h
  reads := .refl s c
  silent _ := ⟨rfl, rfl⟩
  refers := nofun

theorem acts_empty : Acts s c 0 false ({ text := [] }, c) where
  caretFree := by simp
  reads := .refl s c
  silent _ := ⟨rfl, rfl⟩
  refers := nofun

theorem acts_number {n : Nat} {c' : Cursor} {text : String} (v : Int) (hr : c.Reads s n c')
    (h : Text.CaretFree text) : Acts s c n false (number text v, c') where
  caretFree := Text.not_mem_ofString.2 h
  reads := hr
  silent _ := ⟨rfl, rfl⟩
  refers := nofun

theorem acts_byte {form : Int → String} (h : ∀ v, Text.CaretFree (form v)) :
    Acts s c 1 false (byte s form c) :=
  acts_number s c _ (c.fetch_reads s) (h _)

theorem acts_word {form : Int → String} (h : ∀ v, Text.CaretFree (form v)) :
    Acts s c 2 false (word s form c) :=
  acts_number s c _ (c.fetchWord_reads s) (h _)

theorem label_named (address : Int) : (label s c address).named = some (wrap address) := by
  have hne := s.options.labelName_ne_nil (wrap address)
  simp [label, Replacement.named, hne]

theorem acts_label {n : Nat} {c' : Cursor} (address : Int) (hr : c.Reads s n c') :
    Acts s c n true (label s c' address, c') where
  caretFree := Text.not_mem_ofString.2 (s.options.caretFree_labelName _)
  reads := hr
  silent := nofun
  refers _ := ⟨wrap address, rfl, label_named s c' address, by simp [label, hr.opStart]⟩

/-- A distance counts from two bytes behind the address of the instruction. -/
theorem relative_eq : relative s c = (label s (c.fetch s).2
    (s.shownAddress c.opStart + 2 + signedByte (c.fetch s).1.toNat), (c.fetch s).2) := by
  have hstart : (c.fetch s).2.opStart = c.opStart := (c.fetch_reads s).opStart
  have htarget (d : Int) : wrap (s.addressOffset + c.opStart + 2 + d) =
      wrap (s.shownAddress c.opStart + 2 + d) := by
    have hsum : s.addressOffset + c.opStart + 2 + d = c.opStart + s.addressOffset + (2 + d) := by
      omega
    rw [hsum, Setting.shownAddress, Int.add_assoc (wrap _), wrap_wrap_add]
  simp only [relative, label, hstart, htarget]

theorem acts_absolute : Acts s c 2 true (absolute s c) := acts_label s c _ (c.fetchWord_reads s)

theorem acts_relative : Acts s c 1 true (relative s c) := acts_label s c _ (c.fetch_reads s)

end Operand

end RomListing

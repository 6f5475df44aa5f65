import RomListing.Proofs.Listing.Numerals
import RomListing.Proofs.Pattern.Operands

/-! # Numbers are read back from operands

The number of an operand can be read from its text, whatever its form. So no two numbers have the
same text.
-/

namespace RomListing

namespace Numeral

open Text.Integer (moreDigits)

def number? : List Char → Option Nat
  | '$' :: digits => moreDigits 16 0 digits
  | digits => moreDigits 10 0 digits

/-- The text is read as the number and is made of what numerals are made of. -/
structure Spells (text : String) (n : Nat) : Prop where
  number : number? text.toList = some n
  chars : text.toList ⊆ '$' :: symbols

theorem Spells.lacks {text : String} {n : Nat} (h : Spells text n) {c : Char}
    (hc : c ∉ '$' :: symbols) : c ∉ text.toList := fun hmem => hc (h.chars hmem)

theorem Spells.inj {text : String} {n m : Nat} (h : Spells text n) (h' : Spells text m) :
    n = m := Option.some.inj (h.number.symm.trans h'.number)

theorem spells_hex (width n : Nat) : Spells ("$" ++ padded hexDigits width n) n := by
  have hnumeral : ("$" ++ padded hexDigits width n).toList =
      '$' :: (padded hexDigits width n).toList := by
    rw [String.toList_append]
    rfl
  constructor <;> rw [hnumeral]
  · exact hex_read width n
  · exact List.cons_subset_cons '$' (padded_subset hexDigits_subset width n)

theorem spells_decimal (width n : Nat) : Spells (padded decimalDigits width n) n := by
  have hsubset := padded_subset decimalDigits_subset width n
  refine ⟨?_, List.subset_cons_of_subset '$' hsubset⟩
  unfold number?
  split
  · rename_i digits hdigits
    have hdollar : '$' ∈ symbols := hsubset (by simp [hdigits])
    exact absurd hdollar (by decide)
  · exact decimal_read width n

end Numeral

namespace Options

open Numeral (Spells)

theorem spells_byteText (o : Options) (n : Nat) : Spells (o.byteText n) n := by
  unfold byteText
  split
  · exact Numeral.spells_decimal 0 n
  · exact Numeral.spells_hex 2 n

theorem spells_wordText (o : Options) (n : Nat) : Spells (o.wordText n) n := by
  unfold wordText
  split
  · exact Numeral.spells_decimal 0 n
  · exact Numeral.spells_hex 4 n

theorem byteText_inj {o : Options} {n m : Nat} (h : o.byteText n = o.byteText m) : n = m :=
  (o.spells_byteText n).inj (h ▸ o.spells_byteText m)

theorem wordText_inj {o : Options} {n m : Nat} (h : o.wordText n = o.wordText m) : n = m :=
  (o.spells_wordText n).inj (h ▸ o.spells_wordText m)

end Options

end RomListing

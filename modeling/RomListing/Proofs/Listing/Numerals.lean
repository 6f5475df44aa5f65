import RomListing.Options
import RomListing.Text.Integer

/-! # Numerals are read back

Reading the digits of a numeral, zeros in front or not, gives the number that it was written for.
So no two addresses have the same numeral.
-/

namespace RomListing

namespace Text.Integer

variable {base : Nat}

theorem ne_underscore_of_digit {c : Char} {d : Nat} (h : digit? base c = some d) : c ≠ '_' := by
  rintro rfl
  cases h

theorem moreDigits_cons {c : Char} {d : Nat} (h : digit? base c = some d) (acc : Nat)
    (rest : List Char) :
    moreDigits base acc (c :: rest) = moreDigits base (acc * base + d) rest := by
  rw [moreDigits, h, Option.bind_some]
  rintro _ _ rfl
  exact absurd rfl (ne_underscore_of_digit h)

/-- What comes behind digits is read on from their value. -/
theorem moreDigits_append {cs : List Char} {acc v : Nat} (h : moreDigits base acc cs = some v)
    (tail : List Char) : moreDigits base acc (cs ++ tail) = moreDigits base v tail := by
  fun_induction moreDigits base acc cs with
  | case1 acc =>
      cases h
      rfl
  | case2 acc next rest ih =>
      obtain ⟨e, he, hrest⟩ := Option.bind_eq_some_iff.1 h
      rw [List.cons_append, List.cons_append, moreDigits, he]
      exact ih e hrest
  | case3 acc next rest _ ih =>
      obtain ⟨e, he, hrest⟩ := Option.bind_eq_some_iff.1 h
      rw [List.cons_append, moreDigits_cons he]
      exact ih e hrest

/-- One digit more behind digits that are read. -/
theorem moreDigits_snoc {cs : List Char} {c : Char} {acc v d : Nat}
    (h : moreDigits base acc cs = some v) (hc : digit? base c = some d) :
    moreDigits base acc (cs ++ [c]) = some (v * base + d) :=
  (moreDigits_append h [c]).trans (moreDigits_cons hc v [])

/-- Zeros in front count for nothing. -/
theorem moreDigits_leftpad (hzero : digit? base '0' = some 0) (width : Nat) (cs : List Char) :
    moreDigits base 0 (cs.leftpad width '0') = moreDigits base 0 cs := by
  unfold List.leftpad
  induction width - cs.length with
  | zero => rfl
  | succ n ih =>
      rw [List.replicate_succ, List.cons_append, moreDigits_cons hzero, Nat.zero_mul]
      exact ih

/-- The digits of a number, in whatever form each of them is written, are read as the number. -/
theorem moreDigits_toDigits {form : Char → Char} (hbase : 1 < base)
    (hform : ∀ d < base, digit? base (form d.digitChar) = some d) (n : Nat) :
    moreDigits base 0 ((Nat.toDigits base n).map form) = some n := by
  induction n using Nat.strongRecOn with
  | ind n ih =>
      by_cases hlt : n < base
      · have hnone : moreDigits base 0 [] = some 0 := rfl
        have hone := moreDigits_snoc hnone (hform n hlt)
        rw [Nat.toDigits_of_lt_base hlt]
        rwa [Nat.zero_mul, Nat.zero_add] at hone
      · have hle := Nat.le_of_not_lt hlt
        have hquotient := ih (n / base) (Nat.div_lt_self (by omega) hbase)
        have hall := moreDigits_snoc hquotient (hform (n % base) (Nat.mod_lt n (by omega)))
        rw [Nat.toDigits_of_base_le hbase hle, List.map_append]
        rwa [Nat.div_add_mod'] at hall

end Text.Integer

open Text.Integer (digit? moreDigits moreDigits_leftpad moreDigits_toDigits)

namespace Numeral

/-- Whatever their width, hexadecimal numerals are read. -/
theorem hex_read (width n : Nat) :
    moreDigits 16 0 (padded hexDigits width n).toList = some n := by
  have hform : ∀ d < 16, digit? 16 d.digitChar.toUpper = some d := by decide
  have hread := moreDigits_toDigits (by decide) hform n
  show moreDigits 16 0 (String.ofList ((hexDigits n).leftpad width '0')).toList = some n
  rw [String.toList_ofList, moreDigits_leftpad (by decide)]
  exact hread

theorem decimal_read (width n : Nat) :
    moreDigits 10 0 (padded decimalDigits width n).toList = some n := by
  have hform : ∀ d < 10, digit? 10 (id d.digitChar) = some d := by decide
  have hread := moreDigits_toDigits (by decide) hform n
  show moreDigits 10 0 (String.ofList ((decimalDigits n).leftpad width '0')).toList = some n
  rw [String.toList_ofList, moreDigits_leftpad (by decide)]
  rwa [List.map_id] at hread

end Numeral

/-- Addresses with the same numeral are the same. -/
theorem Options.labelNumeral_inj {o : Options} {a b : Int} (ha : 0 ≤ a) (hb : 0 ≤ b)
    (h : o.labelNumeral a = o.labelNumeral b) : a = b := by
  obtain ⟨n, rfl⟩ := Int.eq_ofNat_of_zero_le ha
  obtain ⟨m, rfl⟩ := Int.eq_ofNat_of_zero_le hb
  have hread : some n = some m := by
    unfold Options.labelNumeral at h
    split at h
    · rw [← Numeral.decimal_read 5 n, ← Numeral.decimal_read 5 m]
      exact congrArg (moreDigits 10 0 ·.toList) h
    · rw [← Numeral.hex_read 4 n, ← Numeral.hex_read 4 m]
      exact congrArg (moreDigits 16 0 ·.toList) h
  rw [Option.some.inj hread]

/-- Labels of different addresses have different names. -/
theorem Options.labelName_inj {o : Options} {a b : Int} (ha : 0 ≤ a) (hb : 0 ≤ b)
    (h : o.labelName a = o.labelName b) : a = b :=
  labelNumeral_inj ha hb (String.append_right_inj _ |>.1 h)

end RomListing

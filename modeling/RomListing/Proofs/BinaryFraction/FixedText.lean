import RomListing.Numeral
import RomListing.Proofs.BinaryFraction.Doubles

/-! # Decimals with a fixed number of places

The decimal text of a number is the numeral of a whole number of units, with a point in it. The units
are the nearest ones to the number, an even number of them where two are equally near.
-/

namespace RomListing

namespace BinaryFraction

/-- A whole number is nearest to `r`, and if another one is, too, it is the even one of the two. -/
structure NearestEven (r : ℚ) (n : Nat) : Prop where
  near : |r - n| ≤ 1 / 2
  even : |r - n| = 1 / 2 → n % 2 = 0

theorem NearestEven.not_lt {r : ℚ} {n m : Nat} (h : NearestEven r n) (h' : NearestEven r m) :
    ¬n < m := by
  intro hlt
  have hstep : (n : ℚ) + 1 ≤ m := by exact_mod_cast hlt
  have hbelow := (abs_le.1 h.near).2
  have habove := (abs_le.1 h'.near).1
  -- the two are neighbours, and both of them even
  have hhalf : r - n = 1 / 2 := by linarith
  have hhalf' : r - m = -(1 / 2) := by linarith
  have hnext : m = n + 1 := by
    have : (m : ℚ) = (n + 1 : Nat) := by
      push_cast
      linarith
    exact_mod_cast this
  have heven := h.even (by rw [hhalf, abs_of_nonneg (by norm_num)])
  have heven' := h'.even (by rw [hhalf', abs_neg, abs_of_nonneg (by norm_num)])
  omega

/-- There is one such number. -/
theorem NearestEven.unique {r : ℚ} {n m : Nat} (h : NearestEven r n) (h' : NearestEven r m) :
    n = m := Nat.le_antisymm (Nat.le_of_not_lt (h'.not_lt h)) (Nat.le_of_not_lt (h.not_lt h'))

theorem nearestEven_self (n : Nat) : NearestEven n n := by
  constructor <;> norm_num

theorem nearestEven_of_lt {r : ℚ} {n : Nat} (h : |r - n| < 1 / 2) : NearestEven r n :=
  ⟨h.le, fun heq => absurd heq h.ne⟩

/-- A quotient is a whole number and a part of one, which the remainder tells. -/
theorem exists_part (num : Nat) {den : Nat} (h : 0 < den) :
    ∃ part : ℚ, (num : ℚ) / den = (num / den : Nat) + part ∧ 0 ≤ part ∧ part < 1 ∧
      (2 * (num % den) < den ↔ part < 1 / 2) ∧ (den < 2 * (num % den) ↔ 1 / 2 < part) := by
  have hden : (0 : ℚ) < den := by exact_mod_cast h
  have hnum : (num : ℚ) = (num / den : Nat) * den + (num % den : Nat) := by
    exact_mod_cast (Nat.div_add_mod' num den).symm
  refine ⟨(num % den : Nat) / den, ?_, by positivity, ?_, ?_, ?_⟩
  · rw [div_eq_iff hden.ne', add_mul, div_mul_cancel₀ _ hden.ne']
    exact hnum
  · rw [div_lt_one hden]
    exact_mod_cast Nat.mod_lt num h
  · rw [div_lt_div_iff₀ hden two_pos, one_mul, mul_comm]
    exact_mod_cast Iff.rfl
  · rw [div_lt_div_iff₀ two_pos hden, one_mul, mul_comm ((num % den : Nat) : ℚ)]
    exact_mod_cast Iff.rfl

theorem nearestEven_roundHalfEven (num : Nat) {den : Nat} (h : 0 < den) :
    NearestEven (num / den) (roundHalfEven num den) := by
  obtain ⟨part, hquotient, hnonneg, hless, hbelow, habove⟩ := exists_part num h
  rw [hquotient]
  unfold roundHalfEven
  dsimp only
  split
  · rename_i hlt
    refine nearestEven_of_lt ?_
    rw [add_sub_cancel_left, abs_of_nonneg hnonneg]
    exact hbelow.1 hlt
  · rename_i hnotBelow
    split
    · rename_i hgt
      refine nearestEven_of_lt ?_
      have := habove.1 hgt
      push_cast
      rw [abs_lt]
      constructor <;> linarith
    · rename_i hnotAbove
      obtain rfl : part = 1 / 2 :=
        le_antisymm (not_lt.1 (mt habove.2 hnotAbove)) (not_lt.1 (mt hbelow.2 hnotBelow))
      split
      · rename_i heven
        refine ⟨?_, fun _ => heven⟩
        norm_num
      · refine ⟨?_, fun _ => by omega⟩
        push_cast
        norm_num

theorem nearestEven_units (x : BinaryFraction) (places : Nat) :
    NearestEven (|x.toRat| * 10 ^ places) (x.units places) := by
  rw [abs_toRat]
  unfold units
  simp only [Nat.pow_eq]
  cases h : x.exponent with
  | ofNat e =>
      have hwhole : (x.mantissa : ℚ) * 2 ^ (Int.ofNat e) * 10 ^ places =
          (x.mantissa * 10 ^ places * 2 ^ e : Nat) := by
        rw [Int.ofNat_eq_natCast, zpow_natCast]
        push_cast
        ring
      rw [hwhole]
      exact nearestEven_self _
  | negSucc e =>
      have hquotient : (x.mantissa : ℚ) * 2 ^ (Int.negSucc e) * 10 ^ places =
          (x.mantissa * 10 ^ places : Nat) / (2 ^ (e + 1) : Nat) := by
        rw [zpow_negSucc]
        push_cast
        field_simp
      rw [hquotient]
      exact nearestEven_roundHalfEven _ (Nat.two_pow_pos _)

/-- The text is the numeral of the whole part and that of the places, behind the sign. -/
theorem fixedText_eq (x : BinaryFraction) (places : Nat) :
    let n := x.units places
    x.fixedText places = (if x.negative then "-" else "") ++
      Numeral.decimal (n / 10 ^ places : Nat) ++ "." ++
        Numeral.padded Numeral.decimalDigits places (n % 10 ^ places : Nat) := by
  intro n
  have hwhole : Numeral.decimal (n / 10 ^ places : Nat) =
      String.ofList (Nat.toDigits 10 (n / 10 ^ places)) := by
    show String.ofList ((Nat.toDigits 10 (n / 10 ^ places)).leftpad 0 '0') = _
    simp [List.leftpad]
  have hpart : Numeral.padded Numeral.decimalDigits places (n % 10 ^ places : Nat) =
      String.ofList ((Nat.toDigits 10 (n % 10 ^ places)).leftpad places '0') := rfl
  have hsign : (if x.negative then "-" else "") =
      String.ofList (if x.negative then ['-'] else []) := by
    cases x.negative <;> rfl
  rw [hwhole, hpart, hsign]
  unfold fixedText
  simp only [Nat.pow_eq]
  rw [← String.toList_inj]
  simp only [String.toList_append, String.toList_ofList, List.append_assoc]
  rfl

end BinaryFraction

end RomListing

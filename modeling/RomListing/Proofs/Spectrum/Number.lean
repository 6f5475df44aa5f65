import RomListing.Proofs.BinaryFraction.Doubles
import RomListing.Spectrum.Number

/-! # Numbers of the Spectrum ROM are doubles

The mantissa of a number has 32 digits and its exponent is far from the ends of the range of a
double, so that its value is a double and nothing is rounded on the way to it.
-/

namespace RomListing.Spectrum.FiveBytes

def bytes (n : FiveBytes) : List UInt8 := [n.exponent, n.m1, n.m2, n.m3, n.m4]

/-- The mantissa of a number with an exponent. Its first digit, which is 1, gives its place to the
sign. -/
def mantissa (n : FiveBytes) : Nat :=
  2 ^ 31 + n.m1.toNat % 0x80 * 2 ^ 24 + n.m2.toNat * 2 ^ 16 + n.m3.toNat * 2 ^ 8 + n.m4.toNat

/-- The whole number that a number without an exponent is, its sign apart. -/
def small (n : FiveBytes) : Nat := n.m2.toNat + 0x100 * n.m3.toNat

def signed (n : FiveBytes) : ℚ := (-1) ^ (n.m1.toNat / 0x80) * n.mantissa

def scale (n : FiveBytes) : ℚ := 2 ^ ((n.exponent.toNat : Int) - 160)

def number (n : FiveBytes) : ℚ :=
  if n.exponent = 0 then (if n.m1 = 0xFF then -1 else 1) * n.small else n.signed * n.scale

variable {n n' : FiveBytes}

theorem le_mantissa (n : FiveBytes) : 2 ^ 31 ≤ n.mantissa := by
  unfold mantissa
  omega

theorem mantissa_lt (n : FiveBytes) : n.mantissa < 2 ^ 32 := by
  have := n.m2.toNat_lt
  have := n.m3.toNat_lt
  have := n.m4.toNat_lt
  unfold mantissa
  omega

theorem small_lt (n : FiveBytes) : n.small < 2 ^ 16 := by
  have := n.m2.toNat_lt
  have := n.m3.toNat_lt
  unfold small
  omega

theorem value_of_exponent (h : n.exponent ≠ 0) :
    n.value = ⟨0x80 ≤ n.m1, n.mantissa, n.exponent.toNat - 160⟩ := by
  have hmantissa : (n.m1.toNat % 0x80 + 0x80) * 2 ^ 24 + n.m2.toNat * 2 ^ 16 +
      n.m3.toNat * 2 ^ 8 + n.m4.toNat = n.mantissa := by
    unfold mantissa
    omega
  simp only [value, if_neg h, Nat.pow_eq, hmantissa]

theorem value_of_small (h : n.exponent = 0) :
    n.value = ⟨n.m1 == 0xFF && n.small != 0, n.small, 0⟩ := if_pos h

/-! ## Exactness -/

/-- A mantissa of at most 32 digits is normal with any exponent of a number. -/
theorem isNormal_of_short {x : BinaryFraction} (hpos : 0 < x.mantissa) (hlt : x.mantissa < 2 ^ 32)
    (hlow : -160 ≤ x.exponent) (hhigh : x.exponent ≤ 95) : x.IsNormal := by
  have hlog : x.mantissa.log2 < 32 := (Nat.log2_lt hpos.ne').2 hlt
  constructor
  · exact hpos
  · omega
  · unfold BinaryFraction.leading
    omega
  · unfold BinaryFraction.leading
    omega

theorem value_isNormal (h : n.value.mantissa ≠ 0) : n.value.IsNormal := by
  by_cases he : n.exponent = 0
  · rw [value_of_small he] at h ⊢
    have := n.small_lt
    exact isNormal_of_short (Nat.pos_of_ne_zero h) (by dsimp only; omega) (by simp) (by simp)
  · rw [value_of_exponent he] at h ⊢
    have := n.exponent.toNat_lt
    exact isNormal_of_short (Nat.pos_of_ne_zero h) n.mantissa_lt (by dsimp only; omega)
      (by dsimp only; omega)

theorem sign_eq (b : UInt8) : (if 0x80 ≤ b then -1 else 1 : ℚ) = (-1) ^ (b.toNat / 0x80) := by
  have hb := b.toNat_lt
  by_cases h : 0x80 ≤ b
  · have hle : 0x80 ≤ b.toNat := h
    have hone : b.toNat / 0x80 = 1 := by omega
    rw [if_pos h, hone, pow_one]
  · have hlt : ¬0x80 ≤ b.toNat := h
    have hnone : b.toNat / 0x80 = 0 := by omega
    rw [if_neg h, hnone, pow_zero]

theorem value_toRat (n : FiveBytes) : n.value.toRat = n.number := by
  by_cases h : n.exponent = 0
  · rw [value_of_small h, number, if_pos h]
    by_cases hzero : n.small = 0 <;> simp [BinaryFraction.toRat, hzero]
  · rw [value_of_exponent h, number, if_neg h, signed, scale, ← sign_eq, mul_assoc]
    simp only [BinaryFraction.toRat, decide_eq_true_iff]

theorem mantissa_of_exponent (h : n.exponent ≠ 0) : n.value.mantissa ≠ 0 := by
  have := n.le_mantissa
  rw [value_of_exponent h]
  dsimp only
  omega

theorem doubleBits_of_zero (h : n.value.mantissa = 0) :
    n.value.doubleBits = 0 ∧ n.number = 0 := by
  have he : n.exponent = 0 := by_contra fun he => mantissa_of_exponent he h
  rw [value_of_small he] at h
  have hzero : n.small = 0 := h
  rw [value_of_small he, number, if_pos he, hzero]
  simp [BinaryFraction.doubleBits]

/-- The double of a number is the number. -/
theorem number?_double (n : FiveBytes) : Double.number? n.value.doubleBits = some n.number := by
  by_cases h : n.value.mantissa = 0
  · obtain ⟨hbits, hnumber⟩ := doubleBits_of_zero h
    rw [hbits, hnumber, Double.number?_zero]
  · rw [Double.number?_doubleBits (value_isNormal h), value_toRat]

/-- The double of a number is the nearest one to it. -/
theorem nearest_number (n : FiveBytes) : Double.nearest n.number = n.value.doubleBits := by
  by_cases h : n.value.mantissa = 0
  · obtain ⟨hbits, hnumber⟩ := doubleBits_of_zero h
    rw [hbits, hnumber, Double.nearest_zero]
  · rw [← value_toRat, Double.nearest_toRat (value_isNormal h)]

theorem double_ne_negative_zero (n : FiveBytes) : n.value.doubleBits ≠ 2 ^ 63 := by
  by_cases h : n.value.mantissa = 0
  · rw [(doubleBits_of_zero h).1]
    decide
  · have hbits := (value_isNormal h).doubleBits_eq
    have := (value_isNormal h).le_significand
    have := (value_isNormal h).significand_lt
    have := (value_isNormal h).high
    split at hbits <;> omega

theorem number?_nearest {x : BinaryFraction} (h : x.IsNormal) :
    Double.number? (Double.nearest x.toRat) = some x.toRat := by
  rw [Double.nearest_toRat h, Double.number?_doubleBits h]

theorem number?_signed (n : FiveBytes) :
    Double.number? (Double.nearest n.signed) = some n.signed := by
  have hvalue : n.signed = BinaryFraction.toRat ⟨0x80 ≤ n.m1, n.mantissa, 0⟩ := by
    simp [BinaryFraction.toRat, signed, ← sign_eq]
  have := n.le_mantissa
  rw [hvalue]
  exact number?_nearest (isNormal_of_short (by dsimp only; omega) n.mantissa_lt (by simp) (by simp))

theorem number?_scale (n : FiveBytes) :
    Double.number? (Double.nearest n.scale) = some n.scale := by
  have hvalue : n.scale = BinaryFraction.toRat ⟨false, 1, n.exponent.toNat - 160⟩ := by
    simp [BinaryFraction.toRat, scale]
  have := n.exponent.toNat_lt
  rw [hvalue]
  exact number?_nearest (isNormal_of_short Nat.one_pos (Nat.one_lt_two_pow (by decide))
    (by dsimp only; omega) (by dsimp only; omega))

/-! ## Order -/

/-- Exponent and mantissa as one whole number. -/
def rank (n : FiveBytes) : Nat := n.exponent.toNat * 2 ^ 32 + n.mantissa

def magnitude (n : FiveBytes) : ℚ := n.mantissa * n.scale

theorem scale_pos (n : FiveBytes) : 0 < n.scale := by
  unfold scale
  positivity

theorem magnitude_pos (n : FiveBytes) : 0 < n.magnitude := by
  have hm : (0 : ℚ) < n.mantissa := by exact_mod_cast Nat.lt_of_lt_of_le (by decide) n.le_mantissa
  exact mul_pos hm n.scale_pos

theorem number_of_exponent (h : n.exponent ≠ 0) :
    n.number = (-1) ^ (n.m1.toNat / 0x80) * n.magnitude := by
  rw [number, if_neg h, signed, magnitude, mul_assoc]

theorem number_of_positive (h : n.exponent ≠ 0) (hpos : n.m1 < 0x80) : n.number = n.magnitude := by
  have hlt : n.m1.toNat < 0x80 := hpos
  have hsign : n.m1.toNat / 0x80 = 0 := by omega
  rw [number_of_exponent h, hsign, pow_zero, one_mul]

/-- All mantissas begin with the same digit, so that a greater exponent makes a greater number. -/
theorem magnitude_lt_of_rank_lt (h : n.rank < n'.rank) : n.magnitude < n'.magnitude := by
  have hlt := n.mantissa_lt
  have hle := n'.le_mantissa
  have hlt' := n'.mantissa_lt
  unfold rank at h
  have hexponent : n.exponent.toNat ≤ n'.exponent.toNat := by omega
  rcases Nat.lt_or_eq_of_le hexponent with hless | hsame
  · calc n.magnitude < 2 ^ 32 * n.scale := by
          have hpos := n.scale_pos
          have hlt : (n.mantissa : ℚ) < 2 ^ 32 := by exact_mod_cast hlt
          unfold magnitude
          gcongr
      _ = 2 ^ 31 * 2 ^ ((n.exponent.toNat : Int) - 160 + 1) := by
          rw [zpow_add_one₀ two_ne_zero, scale]
          ring
      _ ≤ n'.magnitude := by
          have hstep : (n.exponent.toNat : Int) - 160 + 1 ≤ n'.exponent.toNat - 160 := by omega
          have hle : (2 : ℚ) ^ 31 ≤ n'.mantissa := by exact_mod_cast hle
          unfold magnitude scale
          gcongr
          exact one_le_two
  · have hscale : n.scale = n'.scale := by
      unfold scale
      rw [hsame]
    have hmantissa : (n.mantissa : ℚ) < n'.mantissa := by
      have : n.mantissa < n'.mantissa := by omega
      exact_mod_cast this
    have hpos := n'.scale_pos
    unfold magnitude
    rw [hscale]
    gcongr

theorem magnitude_eq_of_rank_eq (h : n.rank = n'.rank) : n.magnitude = n'.magnitude := by
  have hlt := n.mantissa_lt
  have hlt' := n'.mantissa_lt
  unfold rank at h
  have hexponent : n.exponent.toNat = n'.exponent.toNat := by omega
  have hmantissa : n.mantissa = n'.mantissa := by omega
  unfold magnitude scale
  rw [hexponent, hmantissa]

theorem magnitude_lt_iff : n.magnitude < n'.magnitude ↔ n.rank < n'.rank := by
  refine ⟨fun h => ?_, magnitude_lt_of_rank_lt⟩
  rcases Nat.lt_trichotomy n.rank n'.rank with hlt | heq | hgt
  · exact hlt
  · exact absurd h (magnitude_eq_of_rank_eq heq).not_lt
  · exact absurd h (magnitude_lt_of_rank_lt hgt).not_gt

theorem rank_eq_of_magnitude_eq (h : n.magnitude = n'.magnitude) : n.rank = n'.rank := by
  rcases Nat.lt_trichotomy n.rank n'.rank with hlt | heq | hgt
  · exact absurd h (magnitude_lt_of_rank_lt hlt).ne
  · exact heq
  · exact absurd h (magnitude_lt_of_rank_lt hgt).ne'

/-- Exponent, sign and mantissa are all of the bytes. -/
theorem eq_of_rank_eq (hsign : n.m1.toNat / 0x80 = n'.m1.toNat / 0x80) (h : n.rank = n'.rank) :
    n = n' := by
  obtain ⟨e, m1, m2, m3, m4⟩ := n
  obtain ⟨e', m1', m2', m3', m4'⟩ := n'
  have := m2.toNat_lt; have := m3.toNat_lt; have := m4.toNat_lt
  have := m2'.toNat_lt; have := m3'.toNat_lt; have := m4'.toNat_lt
  simp only [rank, mantissa] at hsign h
  simp only [mk.injEq, ← UInt8.toNat_inj]
  omega

theorem abs_number (h : n.exponent ≠ 0) : |n.number| = n.magnitude := by
  rw [number_of_exponent h, abs_mul, abs_neg_one_pow, one_mul, abs_of_pos n.magnitude_pos]

theorem number_neg_iff (h : n.exponent ≠ 0) : n.number < 0 ↔ 0x80 ≤ n.m1 := by
  rw [← value_toRat, (value_isNormal (mantissa_of_exponent h)).toRat_neg_iff, value_of_exponent h,
    decide_eq_true_iff]

theorem number_injective (h : n.exponent ≠ 0) (h' : n'.exponent ≠ 0)
    (heq : n.number = n'.number) : n = n' := by
  have hmagnitude : n.magnitude = n'.magnitude := by
    rw [← abs_number h, ← abs_number h', heq]
  have hsign : 0x80 ≤ n.m1 ↔ 0x80 ≤ n'.m1 := by
    rw [← number_neg_iff h, ← number_neg_iff h', heq]
  have hm1 := n.m1.toNat_lt
  have hm1' := n'.m1.toNat_lt
  have hsign : 0x80 ≤ n.m1.toNat ↔ 0x80 ≤ n'.m1.toNat := hsign
  exact eq_of_rank_eq (by omega) (rank_eq_of_magnitude_eq hmagnitude)

theorem xor_two_pow (a k : Nat) :
    (a ^^^ 2 ^ k) / 2 ^ k = a / 2 ^ k ^^^ 1 ∧ (a ^^^ 2 ^ k) % 2 ^ k = a % 2 ^ k :=
  ⟨by rw [Nat.xor_div_two_pow, Nat.div_self (Nat.two_pow_pos k)],
    by rw [Nat.xor_mod_two_pow, Nat.mod_self, Nat.xor_zero]⟩

/-- The first bit of the mantissa is its sign alone. -/
theorem number_flip (h : n.exponent ≠ 0) :
    ({ n with m1 := n.m1 ^^^ 0x80 } : FiveBytes).number = -n.number := by
  have hm1 := n.m1.toNat_lt
  have hflip : (n.m1 ^^^ 0x80).toNat = n.m1.toNat ^^^ 0x80 := UInt8.toNat_xor n.m1 0x80
  obtain ⟨hhigh, hlow⟩ := xor_two_pow n.m1.toNat 7
  have hlow : (n.m1 ^^^ 0x80).toNat % 0x80 = n.m1.toNat % 0x80 := hflip ▸ hlow
  have hhigh : (n.m1 ^^^ 0x80).toNat / 0x80 = n.m1.toNat / 0x80 ^^^ 1 := hflip ▸ hhigh
  have hbit : n.m1.toNat / 0x80 = 0 ∨ n.m1.toNat / 0x80 = 1 := by omega
  have hsign : (n.m1 ^^^ 0x80).toNat / 0x80 = 1 - n.m1.toNat / 0x80 := by
    rcases hbit with hbit | hbit <;> rw [hhigh, hbit] <;> rfl
  have hmagnitude : ({ n with m1 := n.m1 ^^^ 0x80 } : FiveBytes).magnitude = n.magnitude := by
    simp only [magnitude, mantissa, hlow, scale]
  rw [number_of_exponent h, number_of_exponent (by exact h), hmagnitude, hsign]
  rcases hbit with hbit | hbit <;> simp [hbit]

theorem bytes_lt_iff (hpos : n.m1 < 0x80) (hpos' : n'.m1 < 0x80) :
    n.bytes < n'.bytes ↔ n.rank < n'.rank := by
  obtain ⟨e, m1, m2, m3, m4⟩ := n
  obtain ⟨e', m1', m2', m3', m4'⟩ := n'
  have := m2.toNat_lt; have := m3.toNat_lt; have := m4.toNat_lt
  have := m2'.toNat_lt; have := m3'.toNat_lt; have := m4'.toNat_lt
  simp only [UInt8.lt_iff_toNat_lt] at hpos hpos'
  simp only [bytes, rank, mantissa, List.cons_lt_cons_iff, UInt8.lt_iff_toNat_lt,
    ← UInt8.toNat_inj, List.not_lt_nil, and_false, or_false]
  have : UInt8.toNat 0x80 = 0x80 := rfl
  omega

/-- Five bytes are a number, and other lists of bytes are none. With an exponent the double of a
number is finite and exactly the mantissa with its sign at the scale; these are doubles, too, so that
their product is not rounded. Different bytes are different doubles then, the first bit of the mantissa
negates, and positive numbers are in the order of their bytes. Without an exponent the double is
exactly the small whole number with its sign, and zero is positive. -/
theorem double_exact :
    (∀ bs : List UInt8, bs.length ≠ 5 → ofList bs = .error (.length bs.length)) ∧
    (∀ n : FiveBytes, ofList n.bytes = .ok n ∧ n.value.doubleBits ≠ 2 ^ 63 ∧
      (n.exponent = 0 →
        let small : Nat := n.m2.toNat + 0x100 * n.m3.toNat
        let whole : ℚ := if n.m1 = 0xFF then -small else small
        Double.number? n.value.doubleBits = some whole ∧
          Double.nearest whole = n.value.doubleBits) ∧
      (n.exponent ≠ 0 →
        let mantissa : Nat := 2 ^ 31 + n.m1.toNat % 0x80 * 2 ^ 24 + n.m2.toNat * 2 ^ 16 +
          n.m3.toNat * 2 ^ 8 + n.m4.toNat
        let signed : ℚ := (-1) ^ (n.m1.toNat / 0x80) * mantissa
        let scale : ℚ := 2 ^ ((n.exponent.toNat : Int) - 160)
        Double.number? n.value.doubleBits = some (signed * scale) ∧
          Double.number? (Double.nearest signed) = some signed ∧
          Double.number? (Double.nearest scale) = some scale ∧
          Double.nearest (signed * scale) = n.value.doubleBits ∧
          Double.number? ({ n with m1 := n.m1 ^^^ 0x80 } : FiveBytes).value.doubleBits =
            some (-(signed * scale)))) ∧
    ∀ n n' : FiveBytes, n.exponent ≠ 0 → n'.exponent ≠ 0 →
      (n ≠ n' → n.value.doubleBits ≠ n'.value.doubleBits) ∧
      (n.m1 < 0x80 → n'.m1 < 0x80 → ∀ v v', Double.number? n.value.doubleBits = some v →
        Double.number? n'.value.doubleBits = some v' → (v < v' ↔ n.bytes < n'.bytes)) := by
  refine ⟨fun bs h => ?_, fun n => ⟨rfl, n.double_ne_negative_zero, fun h => ?_, fun h => ?_⟩,
    fun n n' h h' => ⟨fun hne heq => hne ?_, fun hpos hpos' v v' hv hv' => ?_⟩⟩
  · match bs with
    | [] | [_] | [_, _] | [_, _, _] | [_, _, _, _] | _ :: _ :: _ :: _ :: _ :: _ :: _ => rfl
    | [_, _, _, _, _] => exact absurd rfl h
  · intro small whole
    have hnumber : n.number = whole := by
      rw [number, if_pos h, ite_mul, neg_one_mul, one_mul]
      rfl
    exact ⟨hnumber ▸ n.number?_double, hnumber ▸ n.nearest_number⟩
  · intro mantissa signed scale
    have hnumber : n.number = signed * scale := if_neg h
    have hflip := FiveBytes.number?_double { n with m1 := n.m1 ^^^ 0x80 }
    rw [number_flip h, hnumber] at hflip
    exact ⟨hnumber ▸ n.number?_double, n.number?_signed, n.number?_scale,
      hnumber ▸ n.nearest_number, hflip⟩
  · have hsame := n.number?_double
    rw [heq, n'.number?_double] at hsame
    exact number_injective h h' (Option.some.inj hsame).symm
  · obtain rfl := Option.some.inj (n.number?_double.symm.trans hv)
    obtain rfl := Option.some.inj (n'.number?_double.symm.trans hv')
    rw [number_of_positive h hpos, number_of_positive h' hpos', magnitude_lt_iff,
      bytes_lt_iff hpos hpos']

/-- Three bytes, the least negative whole number, -1, and the greatest number below a half. -/
theorem double_exact_below_half :
    ofList [0x80, 0x00, 0x00] = .error (.length 3) ∧
      Double.number? (value ⟨0x00, 0xFF, 0xFF, 0xFF, 0x00⟩).doubleBits = some (-0xFFFF) ∧
      Double.number? (value ⟨0x81, 0x80, 0x00, 0x00, 0x00⟩).doubleBits = some (-1) ∧
      ∃ v, Double.number? (value ⟨0x7F, 0x7F, 0xFF, 0xFF, 0xFF⟩).doubleBits = some v ∧
        Double.number? (value ⟨0x80, 0x00, 0x00, 0x00, 0x00⟩).doubleBits = some (1 / 2) ∧
        v < 1 / 2 := by
  obtain ⟨hlength, hnumbers, horder⟩ := double_exact
  obtain ⟨-, -, hwhole, -⟩ := hnumbers ⟨0x00, 0xFF, 0xFF, 0xFF, 0x00⟩
  obtain ⟨-, -, -, hone⟩ := hnumbers ⟨0x81, 0x80, 0x00, 0x00, 0x00⟩
  obtain ⟨-, -, -, hbelow⟩ := hnumbers ⟨0x7F, 0x7F, 0xFF, 0xFF, 0xFF⟩
  obtain ⟨-, -, -, hhalf⟩ := hnumbers ⟨0x80, 0x00, 0x00, 0x00, 0x00⟩
  have hwhole : Double.number? (value ⟨0x00, 0xFF, 0xFF, 0xFF, 0x00⟩).doubleBits =
      some (-((0xFFFF : Nat) : ℚ)) := (hwhole rfl).1
  have hone : Double.number? (value ⟨0x81, 0x80, 0x00, 0x00, 0x00⟩).doubleBits =
      some ((-1) ^ 1 * ((0x80000000 : Nat) : ℚ) * 2 ^ (-31 : Int)) := (hone (by decide)).1
  have hhalf : Double.number? (value ⟨0x80, 0x00, 0x00, 0x00, 0x00⟩).doubleBits =
      some ((-1) ^ 0 * ((0x80000000 : Nat) : ℚ) * 2 ^ (-32 : Int)) := (hhalf (by decide)).1
  have hbelow := (hbelow (by decide)).1
  have hless := ((horder ⟨0x7F, 0x7F, 0xFF, 0xFF, 0xFF⟩ ⟨0x80, 0x00, 0x00, 0x00, 0x00⟩ (by decide)
    (by decide)).2 (by decide) (by decide) _ _ hbelow hhalf).2 (by decide)
  have hvalue : ((-1) ^ 0 * ((0x80000000 : Nat) : ℚ) * 2 ^ (-32 : Int) : ℚ) = 1 / 2 := by norm_num
  rw [hvalue] at hhalf hless
  refine ⟨hlength [0x80, 0x00, 0x00] (by decide), ?_, ?_, _, hbelow, hhalf, hless⟩
  · exact hwhole
  · rw [hone]
    norm_num

end RomListing.Spectrum.FiveBytes

import RomListing.Proofs.BinaryFraction.FixedText
import RomListing.Proofs.Spectrum.CustomRegion
import RomListing.Proofs.Spectrum.Number

/-! # Numbers in byte code

The first byte of a number in byte code tells how many bytes it has, and how they are to be read. The
two agree: all bytes behind the exponent are digits of the mantissa, and the number is read from the
bytes that were taken for it.
-/

namespace RomListing

theorem Image.available_of_isSome {m : Image} {a : Int} {n : Nat} (hpos : 0 < n)
    (hin : ∀ x, a ≤ x → x < a + n → (m.byte? x).isSome = true) :
    m.base ≤ a ∧ m.available a n = n := by
  have hfirst := byte?_isSome_iff.1 (hin a (Int.le_refl a) (by omega))
  have hlast := byte?_isSome_iff.1 (hin (a + n - 1) (by omega) (by omega))
  exact ⟨hfirst.1, available_eq_self hfirst.1 (by omega)⟩

namespace Spectrum

namespace FiveBytes

open ByteCode (numberSize)

/-- The bytes of the mantissa come first, and zeros fill the rest. -/
theorem bytes_widen (exponent : UInt8) {mantissa : List UInt8} (h : mantissa.length ≤ 4) :
    (ofCompact.widen exponent mantissa).bytes = (exponent + 0x50) :: mantissa.rightpad 4 0 := by
  match mantissa, h with
  | [], _ | [_], _ | [_, _], _ | [_, _, _], _ | [_, _, _, _], _ => rfl

/-- A number of the right size has an exponent in its first byte or behind it, and nothing but a
mantissa after that. -/
theorem ofCompact_eq {first : UInt8} {rest : List UInt8}
    (h : rest.length + 1 = numberSize first) :
    ∃ (exponent : UInt8) (mantissa : List UInt8),
      (if first.toNat % 64 = 0 then rest = exponent :: mantissa
        else exponent.toNat = first.toNat % 64 ∧ rest = mantissa) ∧
      mantissa.length = first.toNat / 64 + 1 ∧
      ofCompact (first :: rest) = .ok (ofCompact.widen exponent mantissa) := by
  have hlow : (first &&& 0x3F).toNat = first.toNat % 64 := by
    rw [UInt8.toNat_and]
    exact Nat.and_two_pow_sub_one_eq_mod first.toNat 6
  have hzero : first &&& 0x3F = 0 ↔ first.toNat % 64 = 0 := by
    rw [← UInt8.toNat_inj, hlow]
    rfl
  unfold numberSize at h
  by_cases hlong : first.toNat % 64 = 0
  · rw [if_pos hlong] at h
    cases rest with
    | nil =>
        rw [List.length_nil] at h
        omega
    | cons exponent mantissa =>
        rw [List.length_cons] at h
        exact ⟨exponent, mantissa, by rw [if_pos hlong], by omega,
          if_neg (not_not.2 (hzero.2 hlong))⟩
  · rw [if_neg hlong] at h
    exact ⟨first &&& 0x3F, rest, by rw [if_neg hlong]; exact ⟨hlow, rfl⟩, by omega,
      if_pos (mt hzero.1 hlong)⟩

theorem value_negative_iff (n : FiveBytes) : n.value.negative = true ↔ n.number < 0 := by
  by_cases h : n.value.mantissa = 0
  · obtain ⟨-, hnumber⟩ := doubleBits_of_zero h
    have he : n.exponent = 0 := by_contra fun he => mantissa_of_exponent he h
    rw [value_of_small he] at h ⊢
    have hzero : n.small = 0 := h
    simp [hnumber, hzero]
  · rw [← value_toRat, (value_isNormal h).toRat_neg_iff]

end FiveBytes

namespace ByteCode

open BinaryFraction (NearestEven)

theorem slice_number (m : Image) (a : Int) :
    m.slice a (numberSize (m.byteAt a)) =
      m.byteAt a :: m.slice (a + 1) (numberSize (m.byteAt a) - 1) := by
  have hsize : numberSize (m.byteAt a) = numberSize (m.byteAt a) - 1 + 1 := by
    unfold numberSize
    omega
  rw [hsize]
  rfl

/-- An entry where a number is due, and none of its bytes is missing. -/
theorem entry_number {s : Setting} {c : Cursor} {pending : Nat} (hpending : pending ≠ 0)
    (hin : ∀ a, c.offset ≤ a → a < c.offset + numberSize (s.image.byteAt c.offset) →
      (s.image.byte? a).isSome = true) :
    let size := numberSize (s.image.byteAt c.offset)
    let bytes := s.image.slice c.offset size
    let e := Calculator.entry s pending c
    e.cursor.offset = c.offset + size ∧ e.cursor.overflow = c.overflow ∧ e.item.opcodes = bytes ∧
      e.pending = pending - 1 ∧ e.goesOn = true ∧
      ∀ n, FiveBytes.ofCompact bytes = .ok n →
        e.item.remark = some (Text.ofString ("(" ++ n.value.fixedText 6 ++ ")")) := by
  intro size bytes e
  have hpos : 0 < size := by
    unfold size numberSize
    omega
  obtain ⟨hbase, hall⟩ := Image.available_of_isSome hpos hin
  have hentry : e = Calculator.literal s pending c := if_pos hpending
  have hlength : (s.image.slice (c.offset + 1) (size - 1)).length + 1 = size := by
    rw [Image.slice_length]
    omega
  have hshows := literal_shows hbase pending rfl hlength
  rw [← hentry] at hshows
  have hreads : c.Reads s size e.cursor := hlength ▸ hshows.reads
  have hbytes : bytes = s.image.byteAt c.offset :: s.image.slice (c.offset + 1) (size - 1) :=
    slice_number s.image c.offset
  refine ⟨?_, ?_, ?_, hshows.pending, ?_, fun n hn => ?_⟩
  · rw [hreads.offset, hall]
  · rw [hreads.overflow, hall]
    simp
  · rw [hbytes]
    exact congrArg Item.opcodes hshows.item
  · rw [hentry]
    rfl
  · rw [hbytes] at hn
    rw [hshows.item]
    show (FiveBytes.ofCompact (_ :: _)).toOption.map _ = _
    rw [hn, Text.ofString_append, Text.ofString_append]
    rfl

/-- A number in byte code whose bytes are in the image takes exactly the bytes that its first one
asks for. They are the exponent, in the first byte or behind it, and a mantissa that is filled up with
zeros: none is left out, and nothing behind them counts. The remark is the value, which a double holds
exactly, rounded to six places, a half to the even neighbour, behind a minus sign exactly if the value
is negative. -/
theorem literal_reads_number (s : Setting) (c : Cursor) {pending : Nat} (hpending : pending ≠ 0)
    (hin : ∀ a, c.offset ≤ a → a < c.offset + numberSize (s.image.byteAt c.offset) →
      (s.image.byte? a).isSome = true) :
    let first := s.image.byteAt c.offset
    let size := 2 + first.toNat / 64 + if first.toNat % 64 = 0 then 1 else 0
    let bytes := s.image.slice c.offset size
    let e := Calculator.entry s pending c
    e.cursor.offset = c.offset + size ∧ e.cursor.overflow = c.overflow ∧ e.item.opcodes = bytes ∧
      e.pending = pending - 1 ∧ e.goesOn = true ∧
      ∃ (exponent : UInt8) (mantissa : List UInt8) (n : FiveBytes),
        (if first.toNat % 64 = 0 then bytes = first :: exponent :: mantissa
          else exponent.toNat = first.toNat % 64 ∧ bytes = first :: mantissa) ∧
        mantissa.length = first.toNat / 64 + 1 ∧
        FiveBytes.ofCompact bytes = .ok n ∧
        FiveBytes.ofList ((exponent + 0x50) :: mantissa.rightpad 4 0) = .ok n ∧
        Double.number? n.value.doubleBits = some n.number ∧
        ∃ units : Nat, NearestEven (|n.number| * 10 ^ 6) units ∧
          e.item.remark = some (Text.ofString ("(" ++ ((if n.number < 0 then "-" else "") ++
            Numeral.decimal (units / 10 ^ 6 : Nat) ++ "." ++
              Numeral.padded Numeral.decimalDigits 6 (units % 10 ^ 6 : Nat)) ++ ")")) := by
  intro first size bytes e
  obtain ⟨hoffset, hoverflow, hopcodes, hdue, hgoes, hremark⟩ := entry_number hpending hin
  have hlength : (s.image.slice (c.offset + 1) (numberSize first - 1)).length + 1 =
      numberSize first := by
    unfold numberSize
    rw [Image.slice_length]
    omega
  obtain ⟨exponent, mantissa, hsplit, hmantissa, hcompact⟩ := FiveBytes.ofCompact_eq hlength
  rw [← slice_number] at hcompact
  obtain ⟨n, hn⟩ : ∃ n, n = FiveBytes.ofCompact.widen exponent mantissa := ⟨_, rfl⟩
  have hpadded : n.bytes = (exponent + 0x50) :: mantissa.rightpad 4 0 := by
    have := first.toNat_lt
    exact hn ▸ FiveBytes.bytes_widen exponent (by omega)
  rw [← hn] at hcompact
  refine ⟨hoffset, hoverflow, hopcodes, hdue, hgoes, exponent, mantissa, n, ?_, hmantissa, hcompact,
    ?_, n.number?_double, n.value.units 6, ?_, ?_⟩
  · have hbytes : bytes = first :: s.image.slice (c.offset + 1) (numberSize first - 1) :=
      slice_number s.image c.offset
    rw [hbytes]
    split at hsplit
    · rename_i hlong
      rw [if_pos hlong, hsplit]
    · rename_i hshort
      rw [if_neg hshort, hsplit.2]
      exact ⟨hsplit.1, rfl⟩
  · rw [← hpadded]
    rfl
  · rw [← FiveBytes.value_toRat]
    exact n.value.nearestEven_units 6
  · rw [hremark n hcompact, BinaryFraction.fixedText_eq]
    simp only [FiveBytes.value_negative_iff]

/-- -1/128 is in the middle between two decimals of six places. -/
theorem literal_reads_number_halfway :
    let s : Setting := { image := { bytes := #[0x34, 0x2A, 0x80, 0x38], base := 0x100 } }
    let e := Calculator.entry s 1 { offset := 0x101 }
    e.cursor.offset = 0x103 ∧ e.item.opcodes = [0x2A, 0x80] ∧
      e.item.remark = some (Text.ofString "(-0.007812)") ∧
      ∃ n units, FiveBytes.ofCompact [0x2A, 0x80] = .ok n ∧
        FiveBytes.ofList [0x7A, 0x80, 0x00, 0x00, 0x00] = .ok n ∧
        NearestEven (|n.number| * 10 ^ 6) units := by
  intro s e
  have hfirst : s.image.byteAt 0x101 = 0x2A := by decide
  have hbytes : s.image.slice 0x101 (2 + (0x2A : UInt8).toNat / 64 +
      if (0x2A : UInt8).toNat % 64 = 0 then 1 else 0) = [0x2A, 0x80] := by decide
  have hin : ∀ a : Int, 0x101 ≤ a → a < 0x101 + numberSize (s.image.byteAt 0x101) →
      (s.image.byte? a).isSome = true := by
    intro a hle hlt
    rw [hfirst, show numberSize 0x2A = 2 from rfl] at hlt
    obtain rfl | rfl : a = 0x101 ∨ a = 0x102 := by omega
    all_goals decide
  have hread := literal_reads_number s { offset := 0x101 } Nat.one_ne_zero hin
  dsimp only at hread
  rw [hfirst, hbytes] at hread
  obtain ⟨hoffset, -, hopcodes, -, -, exponent, mantissa, n, hsplit, -, hcompact, hlist, -, units,
    hunits, -⟩ := hread
  obtain ⟨hexponent, hmantissa⟩ : exponent.toNat = 0x2A ∧ [0x2A, 0x80] = 0x2A :: mantissa := hsplit
  obtain rfl : exponent = 0x2A := UInt8.toNat_inj.1 hexponent
  obtain rfl : [0x80] = mantissa := (List.cons_eq_cons.1 hmantissa).2
  exact ⟨hoffset, hopcodes, by decide +kernel, n, units, hcompact, hlist, hunits⟩

end ByteCode

end Spectrum

end RomListing

import RomListing.Cursor

/-! # What reading does to a cursor

Reading moves a cursor over the bytes that the image has from its place on, takes them, and
sets the overflow mark when one is missing. Everything that reads is described by the number
of bytes that it asks for. The registers of the decoder are no part of this view.
-/

namespace RomListing

namespace Image

/-- How many of `n` bytes from `a` on can be read before one is missing. -/
def available (m : Image) (a : Int) (n : Nat) : Nat :=
  if a < m.base then 0 else min n (m.last + 1 - a).toNat

/-- The `n` bytes from `a` on; bytes that the image does not have are 0. -/
def slice (m : Image) (a : Int) : Nat → List UInt8
  | 0 => []
  | n + 1 => m.byteAt a :: slice m (a + 1) n

@[simp] theorem slice_length (m : Image) (a : Int) (n : Nat) : (m.slice a n).length = n := by
  induction n generalizing a with
  | zero => rfl
  | succ n ih => simp [slice, ih]

theorem slice_add (m : Image) (a : Int) (n k : Nat) :
    m.slice a (n + k) = m.slice a n ++ m.slice (a + n) k := by
  induction n generalizing a with
  | zero => simp [slice]
  | succ n ih =>
      have hplace : a + 1 + (n : Int) = a + (n + 1 : Nat) := by omega
      rw [Nat.succ_add, slice, ih, slice, hplace, List.cons_append]

theorem available_le (m : Image) (a : Int) (n : Nat) : m.available a n ≤ n := by
  unfold available
  split <;> omega

theorem available_add (m : Image) (a : Int) (n k : Nat) :
    m.available a (n + k) =
      m.available a n + m.available (a + m.available a n) k := by
  unfold available
  split
  · simp [*]
  · rw [if_neg (by omega)]
    omega

/-- From a place in the image on, the bytes up to its end can be read. -/
theorem available_eq_min {m : Image} {a : Int} (h : m.base ≤ a) (n : Nat) :
    m.available a n = min n (m.last + 1 - a).toNat := if_neg (Int.not_lt.2 h)

theorem available_eq_self {m : Image} {a : Int} {n : Nat} (hb : m.base ≤ a)
    (hl : a + n ≤ m.last + 1) : m.available a n = n := by
  rw [available_eq_min hb]
  omega

theorem byteAt_of_last_lt {m : Image} {a : Int} (h : m.last < a) : m.byteAt a = 0 := by
  have hnone : m.byte? a = none := by
    rw [← Option.not_isSome_iff_eq_none, byte?_isSome_iff]
    omega
  rw [byteAt, hnone, Option.getD_none]

theorem slice_of_last_lt {m : Image} {a : Int} (h : m.last < a) (n : Nat) :
    m.slice a n = List.replicate n 0 := by
  induction n generalizing a with
  | zero => rfl
  | succ n ih => rw [slice, byteAt_of_last_lt h, ih (by omega), List.replicate_succ]

theorem map_range_byteAt (m : Image) (a : Int) (n : Nat) :
    ((List.range n).map fun (j : Nat) => m.byteAt (a + j)) = m.slice a n := by
  induction n with
  | zero => rfl
  | succ n ih => rw [List.range_succ, List.map_append, ih, slice_add]; rfl

/-- What lies in the image is read from its bytes. -/
theorem slice_eq_extract {m : Image} {a : Int} {n : Nat} (hb : m.base ≤ a)
    (hl : a + n ≤ m.last + 1) :
    m.slice a n = (m.bytes.extract (a - m.base).toNat (a + n - m.base).toNat).toList := by
  unfold last at hl
  have hsize : (m.bytes.extract (a - m.base).toNat (a + n - m.base).toNat).size = n := by
    rw [Array.size_extract]
    omega
  refine List.ext_getElem (by rw [slice_length, Array.length_toList, hsize]) fun j hj _ => ?_
  rw [slice_length] at hj
  simp only [← map_range_byteAt, List.getElem_map, List.getElem_range, Array.getElem_toList,
    Array.getElem_extract]
  have hplace : (a + j - m.base).toNat = (a - m.base).toNat + j := by omega
  have hin : (a - m.base).toNat + j < m.bytes.size := by omega
  rw [byteAt, byte?, if_neg (by omega), hplace, Array.getElem?_eq_getElem hin, Option.getD_some]

end Image

namespace Cursor

/-- `c'` is `c` after asking for `n` bytes, registers apart. -/
structure Reads (s : Setting) (c : Cursor) (n : Nat) (c' : Cursor) : Prop where
  offset : c'.offset = c.offset + s.image.available c.offset n
  taken : c'.taken.toList =
    c.taken.toList ++ s.image.slice c.offset (s.image.available c.offset n)
  opStart : c'.opStart = c.opStart
  overflow : c'.overflow = (c.overflow || decide (s.image.available c.offset n < n))

variable {s : Setting} {c c' c'' : Cursor} {n k : Nat}

theorem Reads.refl (s : Setting) (c : Cursor) : Reads s c 0 c := by
  have h : s.image.available c.offset 0 = 0 := Nat.le_zero.1 (s.image.available_le _ 0)
  constructor <;> simp [h, Image.slice]

theorem Reads.trans (h : Reads s c n c') (h' : Reads s c' k c'') : Reads s c (n + k) c'' := by
  have hadd := s.image.available_add c.offset n k
  have hn := s.image.available_le c.offset n
  have hk := s.image.available_le c'.offset k
  rw [← h.offset] at hadd
  refine ⟨?_, ?_, h'.opStart.trans h.opStart, ?_⟩
  · have hc := h.offset
    rw [h'.offset, hadd]
    omega
  · rw [h'.taken, h.taken, hadd, Image.slice_add, ← h.offset, List.append_assoc]
  · have hor : decide (s.image.available c.offset (n + k) < n + k) =
        (decide (s.image.available c.offset n < n) ||
          decide (s.image.available c'.offset k < k)) := by
      rw [← Bool.decide_or]
      congr 1
      apply propext
      omega
    rw [h'.overflow, h.overflow, hor, Bool.or_assoc]

theorem Reads.registers (h : Reads s c n c') (opcode : Int) (index : IndexRegister)
    (displacement : Option Int) :
    Reads s c n { c' with opcode := opcode, index := index, displacement := displacement } :=
  ⟨h.offset, h.taken, h.opStart, h.overflow⟩

theorem fetch_reads (s : Setting) (c : Cursor) : Reads s c 1 (c.fetch s).2 := by
  have hsome := Image.byte?_isSome_iff (m := s.image) (a := c.offset)
  unfold fetch
  cases hb : s.image.byte? c.offset with
  | none =>
      rw [hb] at hsome
      have h : s.image.available c.offset 1 = 0 := by
        simp only [Option.isSome_none, Bool.false_eq_true, false_iff] at hsome
        unfold Image.available
        split <;> omega
      constructor <;> simp [h, Image.slice]
  | some b =>
      rw [hb] at hsome
      have h : s.image.available c.offset 1 = 1 := by
        have hin := hsome.1 rfl
        exact Image.available_eq_self hin.1 (by omega)
      constructor <;> simp [h, Image.slice, Image.byteAt, hb]

theorem fetchWord_reads (s : Setting) (c : Cursor) : Reads s c 2 (c.fetchWord s).2 :=
  (fetch_reads s c).trans (fetch_reads s (c.fetch s).2)

theorem fetchMany_reads (s : Setting) (n : Nat) (c : Cursor) :
    Reads s c n (c.fetchMany s n).2 := by
  induction n generalizing c with
  | zero => exact .refl s c
  | succ n ih =>
      have hreads := (fetch_reads s c).trans (ih (c.fetch s).2)
      rwa [Nat.add_comm] at hreads

theorem fetch_byte (s : Setting) (c : Cursor) : (c.fetch s).1 = s.image.byteAt c.offset := by
  unfold fetch Image.byteAt
  cases s.image.byte? c.offset <;> rfl

/-- While no byte is missing, a byte that is read is taken. -/
theorem fetch_taken (h : (c.fetch s).2.overflow = false) :
    c.overflow = false ∧ (c.fetch s).2.taken.toList = c.taken.toList ++ [(c.fetch s).1] := by
  unfold fetch at h ⊢
  cases hb : s.image.byte? c.offset with
  | none => simp [hb] at h
  | some b => simpa [hb] using h

/-- Past the image a cursor stays, and what it reads there is 0, as the bytes behind are. -/
theorem Reads.fetch_byte (h : Reads s c n c') (hbase : s.image.base ≤ c.offset) :
    (c'.fetch s).1 = s.image.byteAt (c.offset + n) := by
  rw [Cursor.fetch_byte, h.offset]
  have hle := s.image.available_le c.offset n
  by_cases hall : s.image.available c.offset n = n
  · rw [hall]
  · have hcut : s.image.last < c.offset + s.image.available c.offset n := by
      have havailable := Image.available_eq_min hbase n
      omega
    rw [Image.byteAt_of_last_lt hcut, Image.byteAt_of_last_lt (by omega)]

theorem Reads.fetchMany_bytes (h : Reads s c n c') (hbase : s.image.base ≤ c.offset) (k : Nat) :
    (c'.fetchMany s k).1 = s.image.slice (c.offset + n) k := by
  induction k generalizing n c' with
  | zero => rfl
  | succ k ih =>
      have hrest := ih (h.trans (fetch_reads s c'))
      rw [Int.natCast_add, ← Int.add_assoc] at hrest
      exact List.cons_eq_cons.2 ⟨h.fetch_byte hbase, hrest⟩

/-- What was complete in the end was complete before. -/
theorem Reads.complete (h : Reads s c n c') (ho : c'.overflow = false) : c.overflow = false := by
  rw [h.overflow, Bool.or_eq_false_iff] at ho
  exact ho.1

theorem Reads.offset_le (h : Reads s c n c') : c.offset ≤ c'.offset := by
  rw [h.offset]
  omega

/-- Where the image has a byte, whoever asks for one moves on. -/
theorem Reads.offset_lt (h : Reads s c n c') (hn : 0 < n)
    (hin : (s.image.byte? c.offset).isSome = true) : c.offset < c'.offset := by
  have hin := Image.byte?_isSome_iff.1 hin
  have havailable := Image.available_eq_min hin.1 n
  have := h.offset
  omega

/-- A byte can only be missing behind the end of the image. -/
theorem Reads.last_lt (h : Reads s c n c') (hbase : s.image.base ≤ c.offset)
    (hsound : c.overflow = false) (hover : c'.overflow = true) : s.image.last < c'.offset := by
  have havailable := Image.available_eq_min hbase n
  have := h.offset
  rw [h.overflow, hsound, Bool.false_or, decide_eq_true_eq] at hover
  omega

end Cursor

end RomListing

import RomListing.Cursor

/-! # Reading a moved image

An image may be moved without being shown elsewhere, if what is added to its places is taken
back from the address offset. Places are all that a move changes: the same bytes are read, the
same ones are missing, and every place is shown at the address where it was shown before.
-/

namespace RomListing

namespace Setting

/-- The image `k` places further on, shown at the addresses at which it was shown. -/
def move (k : Int) (s : Setting) : Setting :=
  { s with
    image := { s.image with base := s.image.base + k }
    addressOffset := s.addressOffset - k }

@[simp] theorem move_zero (s : Setting) : s.move 0 = s := by
  simp [move]

@[simp] theorem move_options (k : Int) (s : Setting) : (s.move k).options = s.options := rfl

@[simp] theorem move_bytes (k : Int) (s : Setting) :
    (s.move k).image.bytes = s.image.bytes := rfl

@[simp] theorem byte?_move (k a : Int) (s : Setting) :
    (s.move k).image.byte? (a + k) = s.image.byte? a := by
  have hlt : a + k < s.image.base + k ↔ a < s.image.base := by omega
  have hsub : a + k - (s.image.base + k) = a - s.image.base := by omega
  simp only [Image.byte?, move, hlt, hsub]

@[simp] theorem byteAt_move (k a : Int) (s : Setting) :
    (s.move k).image.byteAt (a + k) = s.image.byteAt a := by
  simp [Image.byteAt]

@[simp] theorem shownAddress_move (k a : Int) (s : Setting) :
    (s.move k).shownAddress (a + k) = s.shownAddress a := by
  have hsum : a + k + (s.addressOffset - k) = a + s.addressOffset := by omega
  simp only [shownAddress, move, hsum]

end Setting

/-- Places that are `k` apart lie in partitions of the same name. -/
def Options.Repeats (o : Options) (k : Int) : Prop :=
  ∀ a, o.partitionAt (a + k) = o.partitionAt a

theorem Options.repeats_zero (o : Options) : o.Repeats 0 := by
  intro a
  rw [Int.add_zero]

theorem Options.repeats_of_unnamed {o : Options} (h : o.partitions.getD [] = []) (k : Int) :
    o.Repeats k := by
  have hnone (a : Int) : o.partitionAt a = none := by
    unfold partitionAt
    cases hp : o.partitions with
    | none => rfl
    | some names =>
        rw [hp, Option.getD_some] at h
        simp [h]
  intro a
  rw [hnone, hnone]

namespace Cursor

def move (k : Int) (c : Cursor) : Cursor :=
  { c with offset := c.offset + k, opStart := c.opStart + k }

theorem fetch_move (s : Setting) (k : Int) (c : Cursor) :
    (c.move k).fetch (s.move k) = ((c.fetch s).1, (c.fetch s).2.move k) := by
  simp only [fetch, move, Setting.byte?_move]
  cases s.image.byte? c.offset with
  | none => rfl
  | some b => simp only [Int.add_right_comm]

/-- The cursors stand `k` places apart and agree on whether a byte was missing. What else they
hold is left over from what was read before. -/
structure Meets (k : Int) (c c' : Cursor) : Prop where
  offset : c'.offset = c.offset + k
  overflow : c'.overflow = c.overflow

theorem meets_move (k : Int) (c : Cursor) : c.Meets k (c.move k) := ⟨rfl, rfl⟩

namespace Meets

variable {k : Int} {c c' : Cursor}

theorem fetch (h : c.Meets k c') (s : Setting) :
    (c'.fetch (s.move k)).1 = (c.fetch s).1 ∧
      (c.fetch s).2.Meets k (c'.fetch (s.move k)).2 := by
  simp only [Cursor.fetch, h.offset, Setting.byte?_move]
  cases s.image.byte? c.offset with
  | none => exact ⟨rfl, ⟨rfl, rfl⟩⟩
  | some b => exact ⟨rfl, ⟨Int.add_right_comm .., h.overflow⟩⟩

theorem fetchMany (h : c.Meets k c') (s : Setting) (n : Nat) :
    (c'.fetchMany (s.move k) n).1 = (c.fetchMany s n).1 ∧
      (c.fetchMany s n).2.Meets k (c'.fetchMany (s.move k) n).2 := by
  induction n generalizing c c' with
  | zero => exact ⟨rfl, h⟩
  | succ n ih =>
      obtain ⟨hbyte, hafter⟩ := h.fetch s
      obtain ⟨hrest, hend⟩ := ih hafter
      refine ⟨?_, hend⟩
      simp only [Cursor.fetchMany, hbyte, hrest]

theorem shownAddress (h : c.Meets k c') (s : Setting) :
    (s.move k).shownAddress c'.offset = s.shownAddress c.offset := by
  rw [h.offset, Setting.shownAddress_move]

theorem peek (h : c.Meets k c') (s : Setting) :
    (c'.peek (s.move k) 0).beyond = (c.peek s 0).beyond ∧
      (c'.peek (s.move k) 0).value = (c.peek s 0).value := by
  simp [Cursor.peek, h.offset]

end Meets

end Cursor

end RomListing

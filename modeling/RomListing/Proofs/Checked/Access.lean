import RomListing.Cursor
import RomListing.Spectrum.Number
import RomListing.Text.Integer

/-! # Checked access

The definitions of a pass are total: a table without an entry gives a default, and a byte that
the image does not have is 0. Their checked twins do the same work, but every position in a
list, every key of a table and every number is checked where it is used, and the first one that
does not hold stops the reading. A twin that equals its original never stops, and the original
never meets its defaults.

This module has the checks, and the twins of the primitive reading of an image.
-/

namespace RomListing

inductive Checked.Fault where
  /-- A list of this length does not have the position. -/
  | position (i : Int) (length : Nat)
  /-- A table does not have the key. -/
  | key (code : Nat)
  | timing (fault : Text.Integer.Fault)
  | number (error : Spectrum.NumberError)
  /-- A power of two is beyond the doubles. -/
  | power (exponent : Int)

abbrev Checked (α : Type) := Except Checked.Fault α

namespace Checked

variable {α : Type}

def get (xs : List α) (i : Int) : Checked α :=
  if h : 0 ≤ i ∧ i.toNat < xs.length then pure (xs.get ⟨i.toNat, h.2⟩)
  else throw (.position i xs.length)

def set (xs : List α) (i : Nat) (a : α) : Checked (List α) :=
  if i < xs.length then pure (xs.set i a) else throw (.position i xs.length)

def lookup (table : List (Nat × α)) (code : Nat) : Checked α :=
  match table.lookup code with
  | none => throw (.key code)
  | some a => pure a

theorem get_eq {xs : List α} {i : Int} {a : α} (hi : 0 ≤ i) (h : xs[i.toNat]? = some a) :
    get xs i = pure a := by
  obtain ⟨hlt, ha⟩ := List.getElem?_eq_some_iff.1 h
  rw [get, dif_pos ⟨hi, hlt⟩, List.get_eq_getElem, ha]

@[simp] theorem get_zero (a : α) (xs : List α) : get (a :: xs) 0 = pure a :=
  get_eq (Int.le_refl 0) rfl

@[simp] theorem get_one (a b : α) (xs : List α) : get (a :: b :: xs) 1 = pure b :=
  get_eq (by decide) rfl

example : get [7, 8] (-1) = .error (.position (-1) 2) := rfl

theorem lookup_eq {table : List (Nat × α)} {code : Nat} {a : α}
    (h : table.lookup code = some a) : lookup table code = pure a := by
  rw [lookup, h]

end Checked

/-! ## Images and partitions -/

def Image.checkedByte? (m : Image) (address : Int) : Checked (Option UInt8) :=
  let i := address - m.base
  if i < 0 ∨ m.bytes.size ≤ i then pure none else some <$> Checked.get m.bytes.toList i

@[simp] theorem Image.checkedByte?_eq (m : Image) (address : Int) :
    m.checkedByte? address = pure (m.byte? address) := by
  unfold checkedByte? byte?
  dsimp only
  by_cases hlow : address < m.base
  · rw [if_pos (by omega), if_pos hlow]
  by_cases hhigh : m.bytes.size ≤ address - m.base
  · rw [if_pos (.inr hhigh), if_neg hlow, Array.getElem?_eq_none (by omega)]
  · have hin : (address - m.base).toNat < m.bytes.size := by omega
    rw [if_neg (by omega), if_neg hlow, Array.getElem?_eq_getElem hin,
      Checked.get_eq (by omega) (by rw [Array.getElem?_toList, Array.getElem?_eq_getElem hin])]
    rfl

def Image.checkedByteAt (m : Image) (address : Int) : Checked UInt8 := do
  let b ← m.checkedByte? address
  return b.getD 0

@[simp] theorem Image.checkedByteAt_eq (m : Image) (address : Int) :
    m.checkedByteAt address = pure (m.byteAt address) := by
  simp [checkedByteAt, byteAt]

def Options.checkedPartitionAt (o : Options) (address : Int) : Checked (Option Text) :=
  match o.partitions with
  | none => pure none
  | some names =>
    let i := wrap address / 0x2000
    if i < names.length then some <$> Checked.get names i else pure none

@[simp] theorem Options.checkedPartitionAt_eq (o : Options) (address : Int) :
    o.checkedPartitionAt address = pure (o.partitionAt address) := by
  have hnonneg : 0 ≤ wrap address / 0x2000 := Int.ediv_nonneg (wrap_nonneg address) (by decide)
  unfold checkedPartitionAt partitionAt
  cases o.partitions with
  | none => rfl
  | some names =>
      dsimp only [Option.bind_some]
      split
      · rename_i hlt
        have hin : (wrap address / 0x2000).toNat < names.length := by omega
        rw [List.getElem?_eq_getElem hin,
          Checked.get_eq hnonneg (List.getElem?_eq_getElem hin)]
        rfl
      · rw [List.getElem?_eq_none (by omega)]

/-! ## Cursors -/

namespace Cursor

def checkedFetch (s : Setting) (c : Cursor) : Checked (UInt8 × Cursor) := do
  match ← s.image.checkedByte? c.offset with
  | none => return (0, { c with overflow := true })
  | some b => return (b, { c with taken := c.taken.push b, offset := c.offset + 1 })

@[simp] theorem checkedFetch_eq (s : Setting) (c : Cursor) :
    c.checkedFetch s = pure (c.fetch s) := by
  unfold checkedFetch fetch
  rw [Image.checkedByte?_eq, pure_bind]
  cases s.image.byte? c.offset <;> rfl

def checkedFetchMany (s : Setting) : Nat → Cursor → Checked (List UInt8 × Cursor)
  | 0, c => return ([], c)
  | n + 1, c => do
    let (b, c) ← c.checkedFetch s
    let (bs, c) ← checkedFetchMany s n c
    return (b :: bs, c)

@[simp] theorem checkedFetchMany_eq (s : Setting) (n : Nat) (c : Cursor) :
    checkedFetchMany s n c = pure (fetchMany s n c) := by
  induction n generalizing c with
  | zero => rfl
  | succ n ih => simp only [checkedFetchMany, fetchMany, checkedFetch_eq, pure_bind, ih]

def checkedFetchWord (s : Setting) (c : Cursor) : Checked (Nat × Cursor) := do
  let (low, c) ← c.checkedFetch s
  let (high, c) ← c.checkedFetch s
  return (low.toNat + 0x100 * high.toNat, c)

@[simp] theorem checkedFetchWord_eq (s : Setting) (c : Cursor) :
    c.checkedFetchWord s = pure (c.fetchWord s) := by
  simp only [checkedFetchWord, fetchWord, checkedFetch_eq, pure_bind]

def checkedPeek (s : Setting) (c : Cursor) (ahead : Int) : Checked Sight := do
  let place := c.offset + ahead
  let b ← s.image.checkedByte? place
  let value ← s.image.checkedByteAt place
  let partition ← s.options.checkedPartitionAt place
  return { place := place, beyond := b.isNone, value := value, partition := partition }

@[simp] theorem checkedPeek_eq (s : Setting) (c : Cursor) (ahead : Int) :
    c.checkedPeek s ahead = pure (c.peek s ahead) := by
  simp only [checkedPeek, peek, Image.checkedByte?_eq, Image.checkedByteAt_eq,
    Options.checkedPartitionAt_eq, pure_bind]

end Cursor

end RomListing

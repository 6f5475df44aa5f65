import RomListing.Word

/-!
# Regions of the address space

A region is a run of 16-bit addresses, both ends included, with the way its bytes are
to be listed.
-/

namespace RomListing

inductive Region.Kind where
  | code
  | bytes
  | words
  | gap
  | custom
  deriving DecidableEq, Repr

def Region.Kind.name : Region.Kind → String
  | .code => "DISASSEMBLE"
  | .bytes => "BYTE_ARRAY"
  | .words => "WORD_ARRAY"
  | .gap => "SKIP"
  | .custom => "CUSTOM"

structure Region where
  first : Nat
  last : Nat
  kind : Region.Kind
  first_le_last : first ≤ last
  last_lt : last < 0x10000
  deriving DecidableEq, Repr

namespace Region

/-- The region between two addresses of any size, given in either order. -/
def span (a b : Int) (kind : Kind) : Region where
  first := min (wrap a).toNat (wrap b).toNat
  last := max (wrap a).toNat (wrap b).toNat
  kind := kind
  first_le_last := by omega
  last_lt := by
    have := wrap_lt a
    have := wrap_lt b
    omega

instance : Membership Nat Region where
  mem r a := r.first ≤ a ∧ a ≤ r.last

theorem mem_def {r : Region} {a : Nat} : a ∈ r ↔ r.first ≤ a ∧ a ≤ r.last := Iff.rfl

instance (r : Region) (a : Nat) : Decidable (a ∈ r) :=
  inferInstanceAs (Decidable (r.first ≤ a ∧ a ≤ r.last))

def length (r : Region) : Nat := r.last - r.first + 1

def overlaps (r s : Region) : Bool := decide (s.first ≤ r.last ∧ r.first ≤ s.last)

def intersect (r s : Region) : Option Region :=
  if h : s.first ≤ r.last ∧ r.first ≤ s.last then
    some
      { first := max r.first s.first
        last := min r.last s.last
        kind := r.kind
        first_le_last := by have := r.first_le_last; have := s.first_le_last; omega
        last_lt := by have := r.last_lt; omega }
  else none

def below? (r : Region) (a : Nat) : Option Region :=
  if h : r.first < a then
    some
      { first := r.first
        last := min r.last (a - 1)
        kind := r.kind
        first_le_last := by have := r.first_le_last; omega
        last_lt := by have := r.last_lt; omega }
  else none

def above? (r : Region) (a : Nat) : Option Region :=
  if h : a < r.last then
    some
      { first := max r.first (a + 1)
        last := r.last
        kind := r.kind
        first_le_last := by have := r.first_le_last; omega
        last_lt := r.last_lt }
  else none

theorem intersect_isSome (r s : Region) : (r.intersect s).isSome = r.overlaps s := by
  unfold intersect overlaps
  split <;> simp [*]

theorem below?_eq_some {r s : Region} {a : Nat} (h : r.below? a = some s) :
    s.first = r.first ∧ s.last = min r.last (a - 1) ∧ s.kind = r.kind ∧ r.first < a := by
  unfold below? at h
  split at h
  · cases h
    exact ⟨rfl, rfl, rfl, by assumption⟩
  · cases h

theorem above?_eq_some {r s : Region} {a : Nat} (h : r.above? a = some s) :
    s.first = max r.first (a + 1) ∧ s.last = r.last ∧ s.kind = r.kind ∧ a < r.last := by
  unfold above? at h
  split at h
  · cases h
    exact ⟨rfl, rfl, rfl, by assumption⟩
  · cases h

end Region

end RomListing

import RomListing.Region

/-!
# Memory maps

A memory map holds regions that share no address, in ascending order. A region put into
it takes its addresses from the regions that held them before.
-/

namespace RomListing

def Region.Before (r s : Region) : Prop := r.last < s.first

structure MemoryMap where
  regions : List Region
  ascending : regions.Pairwise Region.Before

namespace MemoryMap

def empty : MemoryMap := ⟨[], .nil⟩

def find? (m : MemoryMap) (a : Nat) : Option Region := m.regions.find? (a ∈ ·)

def kindAt? (m : MemoryMap) (a : Nat) : Option Region.Kind := (m.find? a).map Region.kind

theorem pairwise_below {rs : List Region} (h : rs.Pairwise Region.Before) (a : Nat) :
    (rs.filterMap (·.below? a)).Pairwise Region.Before := by
  refine List.Pairwise.filterMap _ ?_ h
  intro r s hrs r' hr s' hs
  have hr := Region.below?_eq_some hr
  have hs := Region.below?_eq_some hs
  unfold Region.Before at *
  omega

theorem pairwise_above {rs : List Region} (h : rs.Pairwise Region.Before) (a : Nat) :
    (rs.filterMap (·.above? a)).Pairwise Region.Before := by
  refine List.Pairwise.filterMap _ ?_ h
  intro r s hrs r' hr s' hs
  have hr := Region.above?_eq_some hr
  have hs := Region.above?_eq_some hs
  unfold Region.Before at *
  omega

/-- Puts a region into the map; what lay there before it keeps only what sticks out. -/
def add (m : MemoryMap) (r : Region) : MemoryMap where
  regions := m.regions.filterMap (·.below? r.first) ++
    r :: m.regions.filterMap (·.above? r.last)
  ascending := by
    have hr := r.first_le_last
    rw [List.pairwise_append, List.pairwise_cons]
    refine ⟨pairwise_below m.ascending _, ⟨?_, pairwise_above m.ascending _⟩, ?_⟩
    · intro s hs
      obtain ⟨t, -, ht⟩ := List.mem_filterMap.1 hs
      have ht := Region.above?_eq_some ht
      unfold Region.Before
      omega
    · intro s hs t ht
      obtain ⟨u, -, hu⟩ := List.mem_filterMap.1 hs
      have hu := Region.below?_eq_some hu
      unfold Region.Before
      rcases List.mem_cons.1 ht with rfl | ht
      · omega
      · obtain ⟨v, -, hv⟩ := List.mem_filterMap.1 ht
        have hv := Region.above?_eq_some hv
        omega

def ofList (rs : List Region) : MemoryMap := rs.foldl add empty

/-- Puts every region of `other` into the map, moved by `offset`. -/
def merge (m other : MemoryMap) (offset : Int) : MemoryMap :=
  other.regions.foldl (fun m r => m.add (.span (r.first + offset) (r.last + offset) r.kind)) m

def Joins (r s : Region) : Prop := r.kind = .code ∧ s.kind = .code ∧ r.last + 1 = s.first

instance (r s : Region) : Decidable (Joins r s) :=
  inferInstanceAs (Decidable (r.kind = .code ∧ s.kind = .code ∧ r.last + 1 = s.first))

def join (r s : Region) (h : Joins r s) : Region where
  first := r.first
  last := s.last
  kind := r.kind
  first_le_last := by have := r.first_le_last; have := s.first_le_last; have := h.2.2; omega
  last_lt := s.last_lt

def coalesce : List Region → List Region
  | r :: s :: rest =>
    if h : Joins r s then coalesce (join r s h :: rest) else r :: coalesce (s :: rest)
  | rs => rs
  termination_by rs => rs.length

theorem first_le_of_mem_coalesce (rs : List Region) (a : Nat) (h : ∀ r ∈ rs, a < r.first) :
    ∀ r ∈ coalesce rs, a < r.first := by
  fun_induction coalesce rs with
  | case1 r s rest hj ih =>
      apply ih
      intro t ht
      rcases List.mem_cons.1 ht with rfl | ht
      · exact h r (by simp)
      · exact h t (by simp [ht])
  | case2 r s rest hj ih =>
      intro t ht
      rcases List.mem_cons.1 ht with rfl | ht
      · exact h t (by simp)
      · exact ih (fun u hu => h u (List.mem_cons_of_mem _ hu)) t ht
  | case3 rs hrs => exact h

theorem pairwise_coalesce (rs : List Region) (h : rs.Pairwise Region.Before) :
    (coalesce rs).Pairwise Region.Before := by
  fun_induction coalesce rs with
  | case1 r s rest hj ih =>
      rw [List.pairwise_cons, List.pairwise_cons] at h
      refine ih (List.pairwise_cons.2 ⟨fun t ht => h.2.1 t ht, h.2.2⟩)
  | case2 r s rest hj ih =>
      rw [List.pairwise_cons] at h
      refine List.pairwise_cons.2 ⟨?_, ih h.2⟩
      exact first_le_of_mem_coalesce (s :: rest) r.last h.1
  | case3 rs hrs => exact h

/-- Neighbouring code regions become one. -/
def normalize (m : MemoryMap) : MemoryMap :=
  ⟨coalesce m.regions, pairwise_coalesce m.regions m.ascending⟩

/-- The region at a position, counted from the end when it is negative. -/
def get? (m : MemoryMap) (i : Int) : Option Region :=
  let j := if i < 0 then i + m.regions.length else i
  if j < 0 then none else m.regions[j.toNat]?

end MemoryMap

end RomListing

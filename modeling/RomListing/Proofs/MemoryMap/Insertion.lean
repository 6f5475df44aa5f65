import RomListing.Proofs.MemoryMap.LastWriter

/-! # The order of insertions

Putting a region into a map cuts the map in two, what comes before the region and what comes
after it, and the region stands between them. The two cuts compose: one of them made twice is
the nearer of the two, and cuts on different sides can be made in either order. What a map looks
like beyond a region that was put in is what it looked like there without it, and from this
come the two laws: regions apart from each other can be put in in either order, and a region is
forgotten with the next one that covers it.
-/

namespace RomListing

namespace Region

variable {r s : Region} {x y : Nat}

theorem below?_of_last_lt (h : r.last < x) : r.below? x = some r := by
  have hle := r.first_le_last
  unfold below?
  rw [dif_pos (by omega)]
  congr
  omega

theorem below?_of_le_first (h : x ≤ r.first) : r.below? x = none := dif_neg (by omega)

theorem above?_of_lt_first (h : x < r.first) : r.above? x = some r := by
  have hle := r.first_le_last
  unfold above?
  rw [dif_pos (by omega)]
  congr
  omega

theorem above?_of_last_le (h : r.last ≤ x) : r.above? x = none := dif_neg (by omega)

theorem below?_bind_below? (r : Region) (x y : Nat) :
    (r.below? y).bind (·.below? x) = r.below? (min x y) := by
  unfold below?
  split <;> split <;> simp <;> omega

theorem above?_bind_above? (r : Region) (x y : Nat) :
    (r.above? y).bind (·.above? x) = r.above? (max x y) := by
  unfold above?
  split <;> split <;> simp <;> omega

theorem below?_bind_above? (r : Region) (x y : Nat) :
    (r.below? x).bind (·.above? y) = (r.above? y).bind (·.below? x) := by
  unfold below? above?
  split <;> split
  · -- both cuts leave something, and together they do if there is room between them
    simp only [Option.bind_some]
    split <;> split <;> simp at * <;> omega
  · simp
    omega
  · simp
    omega
  · rfl

theorem below?_bind_above?_eq_none (r : Region) (h : x ≤ y + 1) :
    (r.below? x).bind (·.above? y) = none := by
  rw [Option.bind_eq_none_iff]
  intro s hs
  obtain ⟨-, hlast, -, hlt⟩ := below?_eq_some hs
  exact above?_of_last_le (by omega)

theorem Before.of_disjoint (h : ∀ x, ¬(x ∈ r ∧ x ∈ s)) : r.Before s ∨ s.Before r := by
  have hr := r.first_le_last
  have hs := s.first_le_last
  have hmax := h (max r.first s.first)
  rw [mem_def, mem_def] at hmax
  unfold Before
  omega

theorem bounds_of_subset (h : ∀ x ∈ r, x ∈ s) : s.first ≤ r.first ∧ r.last ≤ s.last := by
  have hr := r.first_le_last
  exact ⟨(h r.first ⟨Nat.le_refl _, hr⟩).1, (h r.last ⟨hr, Nat.le_refl _⟩).2⟩

end Region

namespace MemoryMap

/-! ## The two sides of a cut -/

variable {r : Region} {x y : Nat}

/-- What the regions have before an address. -/
def upTo (x : Nat) (rs : List Region) : List Region := rs.filterMap (·.below? x)

/-- What the regions have after an address. -/
def beyond (x : Nat) (rs : List Region) : List Region := rs.filterMap (·.above? x)

theorem regions_add (m : MemoryMap) (r : Region) :
    (m.add r).regions = upTo r.first m.regions ++ r :: beyond r.last m.regions := rfl

theorem upTo_append (x : Nat) (rs ts : List Region) :
    upTo x (rs ++ ts) = upTo x rs ++ upTo x ts := List.filterMap_append

theorem upTo_cons_of_le_first (h : x ≤ r.first) (rs : List Region) :
    upTo x (r :: rs) = upTo x rs :=
  List.filterMap_cons_none (Region.below?_of_le_first h)

theorem upTo_cons_of_last_lt (h : r.last < x) (rs : List Region) :
    upTo x (r :: rs) = r :: upTo x rs :=
  List.filterMap_cons_some (Region.below?_of_last_lt h)

theorem beyond_append (x : Nat) (rs ts : List Region) :
    beyond x (rs ++ ts) = beyond x rs ++ beyond x ts := List.filterMap_append

theorem beyond_cons_of_last_le (h : r.last ≤ x) (rs : List Region) :
    beyond x (r :: rs) = beyond x rs :=
  List.filterMap_cons_none (Region.above?_of_last_le h)

theorem beyond_cons_of_lt_first (h : x < r.first) (rs : List Region) :
    beyond x (r :: rs) = r :: beyond x rs :=
  List.filterMap_cons_some (Region.above?_of_lt_first h)

theorem upTo_upTo (x y : Nat) (rs : List Region) : upTo x (upTo y rs) = upTo (min x y) rs := by
  unfold upTo
  rw [List.filterMap_filterMap]
  simp only [Region.below?_bind_below?]

theorem beyond_beyond (x y : Nat) (rs : List Region) :
    beyond x (beyond y rs) = beyond (max x y) rs := by
  unfold beyond
  rw [List.filterMap_filterMap]
  simp only [Region.above?_bind_above?]

theorem beyond_upTo (x y : Nat) (rs : List Region) :
    beyond y (upTo x rs) = upTo x (beyond y rs) := by
  unfold upTo beyond
  rw [List.filterMap_filterMap, List.filterMap_filterMap]
  simp only [Region.below?_bind_above?]

theorem beyond_upTo_eq_nil (rs : List Region) (h : x ≤ y + 1) : beyond y (upTo x rs) = [] := by
  unfold upTo beyond
  rw [List.filterMap_filterMap]
  simp [Region.below?_bind_above?_eq_none _ h]

/-! ## A map with one more region, seen from one side -/

theorem upTo_add (m : MemoryMap) (h : x ≤ r.first) :
    upTo x (m.add r).regions = upTo x m.regions := by
  have hle := r.first_le_last
  have hbeyond : upTo x (beyond r.last m.regions) = [] := by
    rw [← beyond_upTo]
    exact beyond_upTo_eq_nil _ (by omega)
  rw [regions_add, upTo_append, upTo_cons_of_le_first h, hbeyond, List.append_nil, upTo_upTo,
    Nat.min_eq_left h]

theorem beyond_add (m : MemoryMap) (h : r.last ≤ x) :
    beyond x (m.add r).regions = beyond x m.regions := by
  have hle := r.first_le_last
  have hupTo : beyond x (upTo r.first m.regions) = [] := beyond_upTo_eq_nil _ (by omega)
  rw [regions_add, beyond_append, beyond_cons_of_last_le h, hupTo, List.nil_append,
    beyond_beyond, Nat.max_eq_left h]

theorem upTo_add_of_last_lt (m : MemoryMap) (h : r.last < x) :
    upTo x (m.add r).regions =
      upTo r.first m.regions ++ r :: beyond r.last (upTo x m.regions) := by
  have hle := r.first_le_last
  rw [regions_add, upTo_append, upTo_cons_of_last_lt h, upTo_upTo, Nat.min_eq_right (by omega),
    beyond_upTo]

theorem beyond_add_of_lt_first (m : MemoryMap) (h : x < r.first) :
    beyond x (m.add r).regions =
      beyond x (upTo r.first m.regions) ++ r :: beyond r.last m.regions := by
  have hle := r.first_le_last
  rw [regions_add, beyond_append, beyond_cons_of_lt_first h, beyond_beyond,
    Nat.max_eq_right (by omega)]

/-! ## The laws -/

theorem add_add_of_before (m : MemoryMap) {a b : Region} (h : a.Before b) :
    ((m.add a).add b).regions = ((m.add b).add a).regions := by
  have ha := a.first_le_last
  have hb := b.first_le_last
  unfold Region.Before at h
  calc ((m.add a).add b).regions
      = upTo b.first (m.add a).regions ++ b :: beyond b.last (m.add a).regions :=
        regions_add _ _
    _ = (upTo a.first m.regions ++ a :: beyond a.last (upTo b.first m.regions)) ++
          b :: beyond b.last m.regions := by
        rw [upTo_add_of_last_lt m h, beyond_add m (by omega)]
    _ = upTo a.first m.regions ++ a :: (beyond a.last (upTo b.first m.regions) ++
          b :: beyond b.last m.regions) := by
        rw [List.append_assoc, List.cons_append]
    _ = upTo a.first (m.add b).regions ++ a :: beyond a.last (m.add b).regions := by
        rw [upTo_add m (by omega), beyond_add_of_lt_first m h]
    _ = ((m.add b).add a).regions := (regions_add _ _).symm

theorem add_add_of_subset (m : MemoryMap) {a b : Region} (h : ∀ x ∈ a, x ∈ b) :
    ((m.add a).add b).regions = (m.add b).regions := by
  obtain ⟨hfirst, hlast⟩ := Region.bounds_of_subset h
  rw [regions_add, regions_add m b, upTo_add m hfirst, beyond_add m hlast]

/-- Two insertions, region for region: in either order if the regions share no address, and the
second one alone if it covers the first, as it does when it is the same. -/
theorem add_commutes_and_absorbs (m : MemoryMap) (a b : Region) :
    ((∀ x, ¬(x ∈ a ∧ x ∈ b)) → ((m.add a).add b).regions = ((m.add b).add a).regions) ∧
      ((∀ x ∈ a, x ∈ b) → ((m.add a).add b).regions = (m.add b).regions) ∧
      ((m.add a).add a).regions = (m.add a).regions := by
  refine ⟨fun hdisjoint => ?_, add_add_of_subset m, add_add_of_subset m fun _ hx => hx⟩
  rcases Region.Before.of_disjoint hdisjoint with hab | hba
  · exact add_add_of_before m hab
  · exact (add_add_of_before m hba).symm

/-- Two regions cut out of the middle of a third, and one of them covered by a fourth. -/
theorem add_commutes_and_absorbs_inside :
    let m := ofList [.span 0 0xFF .code]
    let a := Region.span 0x10 0x1F .bytes
    let b := Region.span 0x20 0x2F .words
    let c := Region.span 0x08 0x1F .gap
    (∀ x, ¬(x ∈ a ∧ x ∈ b)) ∧ ((m.add a).add b).regions = ((m.add b).add a).regions ∧
      (∀ x ∈ a, x ∈ c) ∧ ((m.add a).add c).regions = (m.add c).regions ∧
      ((m.add b).add a).regions = [.span 0 0x0F .code, a, b, .span 0x30 0xFF .code] := by
  intro m a b c
  have hab : ∀ x, ¬(x ∈ a ∧ x ∈ b) := Region.Before.disjoint (show a.last < b.first by decide)
  have hac : ∀ x ∈ a, x ∈ c := fun x hx =>
    ⟨Nat.le_trans (show c.first ≤ a.first by decide) hx.1,
      Nat.le_trans hx.2 (show a.last ≤ c.last by decide)⟩
  exact ⟨hab, (add_commutes_and_absorbs m a b).1 hab, hac,
    (add_commutes_and_absorbs m a c).2.1 hac, by decide⟩

end MemoryMap

end RomListing

import Mathlib.Data.List.Induction
import RomListing.MemoryMap

/-! # The last region put in holds an address

A memory map is a view of a history of regions: an address is held as the latest region
with that address says. The view follows from one equation for `add`; the order of the
regions and their bounds come with the map.
-/

namespace RomListing

/-- Two members of a list that a relation orders are equal or related. -/
theorem eq_or_of_pairwise {α : Type} {R : α → α → Prop} {l : List α} (h : l.Pairwise R) {x y : α}
    (hx : x ∈ l) (hy : y ∈ l) : x = y ∨ R x y ∨ R y x :=
  List.Pairwise.forall_of_forall_of_flip (R := fun x y => x = y ∨ R x y ∨ R y x)
    (fun _ _ => .inl rfl) (h.imp fun hr => .inr (.inl hr)) (h.imp fun hr => .inr (.inr hr)) hx hy

namespace Region

theorem mem_of_below? {s t : Region} {a b : Nat} (h : s.below? b = some t) :
    a ∈ t ↔ a ∈ s ∧ a < b := by
  obtain ⟨hf, hl, -, hb⟩ := below?_eq_some h
  simp only [mem_def, hf, hl]
  omega

theorem mem_of_above? {s t : Region} {a b : Nat} (h : s.above? b = some t) :
    a ∈ t ↔ a ∈ s ∧ b < a := by
  obtain ⟨hf, hl, -, hb⟩ := above?_eq_some h
  simp only [mem_def, hf, hl]
  omega

theorem exists_below? {s : Region} {a b : Nat} (ha : a ∈ s) (hb : a < b) :
    ∃ t, s.below? b = some t := by
  rw [mem_def] at ha
  exact ⟨_, dif_pos (by omega)⟩

theorem exists_above? {s : Region} {a b : Nat} (ha : a ∈ s) (hb : b < a) :
    ∃ t, s.above? b = some t := by
  rw [mem_def] at ha
  exact ⟨_, dif_pos (by omega)⟩

/-- Regions in order share no address. -/
theorem Before.disjoint {r s : Region} (h : r.Before s) (a : Nat) : ¬(a ∈ r ∧ a ∈ s) := by
  rintro ⟨hr, hs⟩
  rw [mem_def] at hr hs
  unfold Before at h
  omega

theorem Before.first_lt {r s : Region} (h : r.Before s) : r.first < s.first := by
  have := r.first_le_last
  unfold Before at h
  omega

/-- The latest region of the history with the address `a` is `s`. -/
def LatestWith (history : List Region) (a : Nat) (s : Region) : Prop :=
  ∃ earlier later, history = earlier ++ s :: later ∧ a ∈ s ∧ ∀ t ∈ later, a ∉ t

theorem latestWith_append_new {rs : List Region} {r : Region} {a : Nat} (h : a ∈ r) :
    LatestWith (rs ++ [r]) a r :=
  ⟨rs, [], rfl, h, by simp⟩

theorem LatestWith.append_old {rs : List Region} {r s : Region} {a : Nat}
    (hs : LatestWith rs a s) (h : a ∉ r) : LatestWith (rs ++ [r]) a s := by
  obtain ⟨earlier, later, rfl, ha, hl⟩ := hs
  refine ⟨earlier, later ++ [r], by simp, ha, ?_⟩
  intro t ht
  rcases List.mem_append.1 ht with ht | ht
  · exact hl t ht
  · rw [List.mem_singleton] at ht
    exact ht ▸ h

theorem LatestWith.mem {rs : List Region} {s : Region} {a : Nat} (h : LatestWith rs a s) :
    s ∈ rs := by
  obtain ⟨earlier, later, rfl, -, -⟩ := h
  simp

theorem LatestWith.has {rs : List Region} {s : Region} {a : Nat} (h : LatestWith rs a s) :
    a ∈ s := by
  obtain ⟨earlier, later, -, ha, -⟩ := h
  exact ha

end Region

namespace MemoryMap

/-- The address lies in a region of the kind. -/
def Holds (m : MemoryMap) (a : Nat) (k : Region.Kind) : Prop :=
  ∃ r ∈ m.regions, a ∈ r ∧ r.kind = k

theorem not_holds_empty (a : Nat) (k : Region.Kind) : ¬empty.Holds a k := by
  simp [Holds, empty]

/-- What `add` does to the view: the new region decides about its addresses and about no
others. -/
theorem holds_add (m : MemoryMap) (r : Region) (a : Nat) (k : Region.Kind) :
    (m.add r).Holds a k ↔ a ∈ r ∧ r.kind = k ∨ a ∉ r ∧ m.Holds a k := by
  unfold Holds add
  simp only [List.mem_append, List.mem_cons, List.mem_filterMap]
  constructor
  · rintro ⟨t, ⟨s, hs, ht⟩ | rfl | ⟨s, hs, ht⟩, ha, hk⟩
    · obtain ⟨has, hlt⟩ := (Region.mem_of_below? ht).1 ha
      refine Or.inr ⟨by rw [Region.mem_def]; omega, s, hs, has, ?_⟩
      rw [← hk, (Region.below?_eq_some ht).2.2.1]
    · exact Or.inl ⟨ha, hk⟩
    · obtain ⟨has, hlt⟩ := (Region.mem_of_above? ht).1 ha
      refine Or.inr ⟨by rw [Region.mem_def]; omega, s, hs, has, ?_⟩
      rw [← hk, (Region.above?_eq_some ht).2.2.1]
  · rintro (⟨ha, hk⟩ | ⟨ha, s, hs, has, hk⟩)
    · exact ⟨r, Or.inr (Or.inl rfl), ha, hk⟩
    · rw [Region.mem_def] at ha
      -- an address of `s` outside of `r` lies in the piece of `s` on its side of `r`
      by_cases hlt : a < r.first
      · obtain ⟨t, ht⟩ := Region.exists_below? has hlt
        refine ⟨t, Or.inl ⟨s, hs, ht⟩, (Region.mem_of_below? ht).2 ⟨has, hlt⟩, ?_⟩
        rw [(Region.below?_eq_some ht).2.2.1, hk]
      · have hlt : r.last < a := by omega
        obtain ⟨t, ht⟩ := Region.exists_above? has hlt
        refine ⟨t, Or.inr (Or.inr ⟨s, hs, ht⟩), (Region.mem_of_above? ht).2 ⟨has, hlt⟩, ?_⟩
        rw [(Region.above?_eq_some ht).2.2.1, hk]

theorem ofList_append (rs : List Region) (r : Region) : ofList (rs ++ [r]) = (ofList rs).add r := by
  simp [ofList]

/-- The kind of a held address is that of the latest region with it. -/
theorem exists_latestWith_of_holds {rs : List Region} {a : Nat} {k : Region.Kind}
    (h : (ofList rs).Holds a k) : ∃ s, Region.LatestWith rs a s ∧ s.kind = k := by
  induction rs using List.reverseRecOn with
  | nil => exact absurd h (not_holds_empty a k)
  | append_singleton rs r ih =>
      rw [ofList_append, holds_add] at h
      rcases h with ⟨ha, hk⟩ | ⟨ha, h⟩
      · exact ⟨r, Region.latestWith_append_new ha, hk⟩
      · obtain ⟨s, hs, hk⟩ := ih h
        exact ⟨s, hs.append_old ha, hk⟩

/-- No address of the history is lost. -/
theorem exists_holds_of_mem {rs : List Region} {r : Region} {a : Nat} (hr : r ∈ rs)
    (ha : a ∈ r) : ∃ k, (ofList rs).Holds a k := by
  induction rs using List.reverseRecOn with
  | nil => cases hr
  | append_singleton rs s ih =>
      simp only [ofList_append, holds_add]
      by_cases hs : a ∈ s
      · exact ⟨s.kind, Or.inl ⟨hs, rfl⟩⟩
      · rcases List.mem_append.1 hr with hr | hr
        · obtain ⟨k, hk⟩ := ih hr
          exact ⟨k, Or.inr ⟨hs, hk⟩⟩
        · rw [List.mem_singleton] at hr
          exact absurd (hr ▸ ha) hs

/-- Whatever regions are put into an empty map, from ends of any size and in any order: the
map is ascending, no two of its regions share an address, all of them lie in the address
space, and an address is held exactly if some region had it, as the latest such region
says. -/
theorem ofList_last_region_wins (history : List (Int × Int × Region.Kind)) :
    let rs := history.map fun (a, b, k) => Region.span a b k
    let m := ofList rs
    m.regions.Pairwise (fun r s => r.first < s.first) ∧
      m.regions.Pairwise (fun r s => ∀ a, ¬(a ∈ r ∧ a ∈ s)) ∧
      (∀ r ∈ m.regions, r.first ≤ r.last ∧ r.last ≤ 0xFFFF) ∧
      ∀ a : Nat,
        ((∃ r ∈ m.regions, a ∈ r) ↔ ∃ s ∈ rs, a ∈ s) ∧
          ∀ r ∈ m.regions, a ∈ r → ∃ s, Region.LatestWith rs a s ∧ r.kind = s.kind := by
  intro rs m
  refine ⟨m.ascending.imp Region.Before.first_lt, m.ascending.imp Region.Before.disjoint, ?_, ?_⟩
  · intro r _
    have := r.last_lt
    exact ⟨r.first_le_last, by omega⟩
  · intro a
    have wins : ∀ r ∈ m.regions, a ∈ r → ∃ s, Region.LatestWith rs a s ∧ r.kind = s.kind := by
      intro r hr ha
      have hheld : (ofList rs).Holds a r.kind := ⟨r, hr, ha, rfl⟩
      obtain ⟨s, hs, hk⟩ := exists_latestWith_of_holds hheld
      exact ⟨s, hs, hk.symm⟩
    refine ⟨⟨?_, ?_⟩, wins⟩
    · rintro ⟨r, hr, ha⟩
      obtain ⟨s, hs, -⟩ := wins r hr ha
      exact ⟨s, hs.mem, hs.has⟩
    · rintro ⟨s, hs, ha⟩
      obtain ⟨k, r, hr, har, -⟩ := exists_holds_of_mem hs ha
      exact ⟨r, hr, har⟩

end MemoryMap

end RomListing

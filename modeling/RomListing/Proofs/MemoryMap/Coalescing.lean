import Mathlib.Data.List.Chain
import RomListing.Proofs.MemoryMap.LastWriter

/-! # Normal maps

Joining neighbouring code regions is a rewriting system on lists of regions, and
`normalize` is one sweep over the list. The sweep has an equation that takes the list from
its front, `coalesce_cons`, and with it the result does not depend on which pair is joined
first: `coalesce` says the same of a list before and after any step, and a list without a
pair to join is its own result.
-/

namespace RomListing

namespace MemoryMap

theorem mem_join {r s : Region} (h : Joins r s) (a : Nat) :
    a ∈ join r s h ↔ a ∈ r ∨ a ∈ s := by
  have hr := r.first_le_last
  have hs := s.first_le_last
  have hnext := h.2.2
  simp only [Region.mem_def, join]
  omega

theorem joins_join_left {r s : Region} (h : Joins r s) (t : Region) :
    Joins (join r s h) t ↔ Joins s t := by
  simp [Joins, join, h.1, h.2.1]

theorem joins_join_right {s t : Region} (h : Joins s t) (r : Region) :
    Joins r (join s t h) ↔ Joins r s := by
  simp [Joins, join]

theorem join_assoc {r s t : Region} (h : Joins r s) (h' : Joins s t) :
    join (join r s h) t ((joins_join_left h t).2 h') =
      join r (join s t h') ((joins_join_right h' r).2 h) := rfl

/-! ## The sweep taken from its front -/

/-- Puts a region in front of a list, joined with the first one if the two join. -/
def attach (r : Region) : List Region → List Region
  | [] => [r]
  | s :: rest => if h : Joins r s then join r s h :: rest else r :: s :: rest

theorem attach_of_joins {r s : Region} (h : Joins r s) (rest : List Region) :
    attach r (s :: rest) = join r s h :: rest := dif_pos h

theorem attach_of_not_joins {r s : Region} (h : ¬Joins r s) (rest : List Region) :
    attach r (s :: rest) = r :: s :: rest := dif_neg h

theorem coalesce_of_joins {r s : Region} (h : Joins r s) (rest : List Region) :
    coalesce (r :: s :: rest) = coalesce (join r s h :: rest) := by
  rw [coalesce, dif_pos h]

theorem coalesce_of_not_joins {r s : Region} (h : ¬Joins r s) (rest : List Region) :
    coalesce (r :: s :: rest) = r :: coalesce (s :: rest) := by
  rw [coalesce, dif_neg h]

theorem attach_join {r s : Region} (h : Joins r s) (ts : List Region) :
    attach (join r s h) ts = attach r (attach s ts) := by
  cases ts with
  | nil => exact (attach_of_joins h []).symm
  | cons t rest =>
      by_cases h' : Joins s t
      · rw [attach_of_joins h', attach_of_joins ((joins_join_left h t).2 h'),
          attach_of_joins ((joins_join_right h' r).2 h), join_assoc]
      · rw [attach_of_not_joins h', attach_of_not_joins (h' ∘ (joins_join_left h t).1),
          attach_of_joins h]

theorem attach_attach_of_not_joins {r s : Region} (h : ¬Joins r s) (ts : List Region) :
    attach r (attach s ts) = r :: attach s ts := by
  cases ts with
  | nil => exact attach_of_not_joins h []
  | cons t rest =>
      by_cases h' : Joins s t
      · rw [attach_of_joins h', attach_of_not_joins (h ∘ (joins_join_right h' r).1)]
      · rw [attach_of_not_joins h', attach_of_not_joins h]

theorem coalesce_cons (r : Region) (rs : List Region) :
    coalesce (r :: rs) = attach r (coalesce rs) := by
  induction rs generalizing r with
  | nil => simp [coalesce, attach]
  | cons s rest ih =>
      by_cases h : Joins r s
      · rw [coalesce_of_joins h, ih, ih, attach_join h]
      · rw [coalesce_of_not_joins h, ih, attach_attach_of_not_joins h]

/-! ## Lists without a pair to join -/

/-- No region joins the one after it. -/
def Settled (rs : List Region) : Prop := rs.IsChain fun r s => ¬Joins r s

theorem Settled.attach {r : Region} {rs : List Region} (h : Settled rs) :
    Settled (attach r rs) := by
  unfold Settled at h ⊢
  cases rs with
  | nil => exact .singleton r
  | cons s rest =>
      by_cases hj : Joins r s
      · rw [attach_of_joins hj]
        rw [List.isChain_cons] at h ⊢
        exact ⟨fun t ht => h.1 t ht ∘ (joins_join_left hj t).1, h.2⟩
      · rw [attach_of_not_joins hj]
        exact .cons_cons hj h

theorem settled_coalesce (rs : List Region) : Settled (coalesce rs) := by
  induction rs with
  | nil => simp [coalesce, Settled]
  | cons r rs ih =>
      rw [coalesce_cons]
      exact ih.attach

theorem Settled.coalesce_eq {rs : List Region} (h : Settled rs) : coalesce rs = rs := by
  induction rs with
  | nil => simp [coalesce]
  | cons r rs ih =>
      rw [coalesce_cons, ih h.of_cons]
      cases rs with
      | nil => rfl
      | cons s rest => exact attach_of_not_joins (List.isChain_cons_cons.1 h).1 rest

/-- In a list in order it is enough to look at neighbours: nothing fits between two
regions that join. -/
theorem Settled.pairwise {rs : List Region} (h : Settled rs) (hrs : rs.Pairwise Region.Before) :
    rs.Pairwise fun r s => ¬Joins r s := by
  induction rs with
  | nil => exact .nil
  | cons r rs ih =>
      rw [List.pairwise_cons] at hrs
      refine List.pairwise_cons.2 ⟨?_, ih h.of_cons hrs.2⟩
      cases rs with
      | nil => simp
      | cons s rest =>
          intro t ht hj
          rcases List.mem_cons.1 ht with rfl | ht
          · exact (List.isChain_cons_cons.1 h).1 hj
          · have hrs₁ := hrs.1 s List.mem_cons_self
            have hst := (List.pairwise_cons.1 hrs.2).1 t ht
            have hs := s.first_le_last
            have hnext := hj.2.2
            unfold Region.Before at hrs₁ hst
            omega

/-! ## Joining in any order -/

/-- One pair of neighbours is joined, wherever it stands. -/
inductive Step : List Region → List Region → Prop
  | here {r s : Region} (h : Joins r s) (rest : List Region) :
      Step (r :: s :: rest) (join r s h :: rest)
  | later (r : Region) {rs ts : List Region} : Step rs ts → Step (r :: rs) (r :: ts)

abbrev Steps : List Region → List Region → Prop := Relation.ReflTransGen Step

def Final (rs : List Region) : Prop := ∀ ts, ¬Step rs ts

theorem Step.length {rs ts : List Region} (h : Step rs ts) : ts.length + 1 = rs.length := by
  induction h with
  | here h rest => rfl
  | later r h ih => simp only [List.length_cons, ih]

theorem Step.coalesce_eq {rs ts : List Region} (h : Step rs ts) : coalesce ts = coalesce rs := by
  induction h with
  | here h rest => exact (coalesce_of_joins h rest).symm
  | later r h ih => rw [coalesce_cons, coalesce_cons, ih]

theorem Step.filter_eq {rs ts : List Region} (h : Step rs ts) :
    ts.filter (·.kind != .code) = rs.filter (·.kind != .code) := by
  induction h with
  | here h rest => simp [join, h.1, h.2.1]
  | later r h ih => simp only [List.filter_cons, ih]

theorem Step.holds_iff {rs ts : List Region} (h : Step rs ts) (a : Nat) (k : Region.Kind) :
    (∃ r ∈ ts, a ∈ r ∧ r.kind = k) ↔ ∃ r ∈ rs, a ∈ r ∧ r.kind = k := by
  induction h with
  | @here r s h rest =>
      have hkind : s.kind = r.kind := h.2.1.trans h.1.symm
      have hjoin : (join r s h).kind = r.kind := rfl
      simp only [List.exists_mem_cons_iff, mem_join, hjoin, hkind]
      tauto
  | later r h ih => simp only [List.exists_mem_cons_iff, ih]

theorem Settled.final {rs : List Region} (h : Settled rs) : Final rs := by
  intro ts hstep
  induction hstep with
  | here hj rest => exact (List.isChain_cons_cons.1 h).1 hj
  | later r hstep ih => exact ih h.of_cons

/-- The sweep is a way to join. -/
theorem steps_coalesce (rs : List Region) : Steps rs (coalesce rs) := by
  fun_induction coalesce rs with
  | case1 r s rest hj ih => exact .head (.here hj rest) ih
  | case2 r s rest hj ih => exact ih.lift _ fun _ _ => .later r
  | case3 rs hrs => exact .refl

theorem Steps.coalesce_eq {rs ts : List Region} (h : Steps rs ts) : coalesce ts = coalesce rs := by
  induction h with
  | refl => rfl
  | tail _ hstep ih => rw [hstep.coalesce_eq, ih]

theorem Steps.filter_eq {rs ts : List Region} (h : Steps rs ts) :
    ts.filter (·.kind != .code) = rs.filter (·.kind != .code) := by
  induction h with
  | refl => rfl
  | tail _ hstep ih => rw [hstep.filter_eq, ih]

theorem Steps.holds_iff {rs ts : List Region} (h : Steps rs ts) (a : Nat) (k : Region.Kind) :
    (∃ r ∈ ts, a ∈ r ∧ r.kind = k) ↔ ∃ r ∈ rs, a ∈ r ∧ r.kind = k := by
  induction h with
  | refl => rfl
  | tail _ hstep ih => rw [hstep.holds_iff, ih]

/-- Whatever pairs are joined, in whatever order: once nothing is left to join, the list is
that of the sweep. -/
theorem steps_final_iff (rs ts : List Region) : Steps rs ts ∧ Final ts ↔ ts = coalesce rs := by
  constructor
  · rintro ⟨hsteps, hfinal⟩
    rw [← hsteps.coalesce_eq]
    exact ((Relation.reflTransGen_iff_eq hfinal).1 (steps_coalesce ts)).symm
  · rintro rfl
    exact ⟨steps_coalesce rs, (settled_coalesce rs).final⟩

/-! ## The normal map -/

theorem settled_normalize (m : MemoryMap) : Settled m.normalize.regions :=
  settled_coalesce m.regions

theorem holds_normalize (m : MemoryMap) (a : Nat) (k : Region.Kind) :
    m.normalize.Holds a k ↔ m.Holds a k :=
  (steps_coalesce m.regions).holds_iff a k

/-- The addresses from `a` to `b` are code, and the one before and the one after are not. -/
structure CodeRun (m : MemoryMap) (a b : Nat) : Prop where
  le : a ≤ b
  holds : ∀ x, a ≤ x → x ≤ b → m.Holds x .code
  starts : ∀ x, x + 1 = a → ¬m.Holds x .code
  stops : ¬m.Holds (b + 1) .code

theorem codeRun_normalize {m : MemoryMap} {a b : Nat} :
    m.normalize.CodeRun a b ↔ m.CodeRun a b := by
  constructor
  · rintro ⟨hle, hholds, hstarts, hstops⟩
    simp only [holds_normalize] at hholds hstarts hstops
    exact ⟨hle, hholds, hstarts, hstops⟩
  · rintro ⟨hle, hholds, hstarts, hstops⟩
    refine ⟨hle, ?_, ?_, ?_⟩ <;> simpa only [holds_normalize]

/-- Between two code regions of a settled map there is room for an address. -/
theorem Settled.apart {m : MemoryMap} (h : Settled m.regions) {r s : Region}
    (hr : r ∈ m.regions) (hs : s ∈ m.regions) (hrcode : r.kind = .code) (hscode : s.kind = .code) :
    r = s ∨ r.last + 1 < s.first ∨ s.last + 1 < r.first := by
  have hpairs := (h.pairwise m.ascending).and m.ascending
  rcases eq_or_of_pairwise hpairs hr hs with heq | ⟨hjoins, hrs⟩ | ⟨hjoins, hsr⟩
  · exact .inl heq
  · unfold Region.Before at hrs
    have hne : r.last + 1 ≠ s.first := fun hnext => hjoins ⟨hrcode, hscode, hnext⟩
    omega
  · unfold Region.Before at hsr
    have hne : s.last + 1 ≠ r.first := fun hnext => hjoins ⟨hscode, hrcode, hnext⟩
    omega

/-- A code region of a settled map is a run of code. -/
theorem Settled.codeRun {m : MemoryMap} (h : Settled m.regions) {r : Region} (hr : r ∈ m.regions)
    (hcode : r.kind = .code) : m.CodeRun r.first r.last := by
  have hle := r.first_le_last
  refine ⟨hle, fun x hx hx' => ⟨r, hr, ⟨hx, hx'⟩, hcode⟩, ?_, ?_⟩
  · rintro x hx ⟨s, hs, hxs, hscode⟩
    rw [Region.mem_def] at hxs
    rcases h.apart hr hs hcode hscode with rfl | hapart <;> omega
  · rintro ⟨s, hs, hxs, hscode⟩
    rw [Region.mem_def] at hxs
    rcases h.apart hr hs hcode hscode with rfl | hapart <;> omega

/-- A run of code in a settled map is one of its regions. -/
theorem Settled.exists_of_codeRun {m : MemoryMap} (h : Settled m.regions) {a b : Nat}
    (hrun : m.CodeRun a b) : ∃ r ∈ m.regions, r.kind = .code ∧ r.first = a ∧ r.last = b := by
  obtain ⟨r, hr, har, hcode⟩ := hrun.holds a (Nat.le_refl a) hrun.le
  rw [Region.mem_def] at har
  have hown := h.codeRun hr hcode
  have hfirst : r.first = a := by
    by_contra hne
    have hbefore : m.Holds (a - 1) .code := hown.holds (a - 1) (by omega) (by omega)
    exact hrun.starts (a - 1) (by omega) hbefore
  have hlast : r.last = b := by
    rcases Nat.lt_trichotomy r.last b with hlt | heq | hgt
    · exact absurd (hrun.holds (r.last + 1) (by omega) (by omega)) hown.stops
    · exact heq
    · exact absurd (hown.holds (b + 1) (by have := hrun.le; omega) (by omega)) hrun.stops
  exact ⟨r, hr, hcode, hfirst, hlast⟩

/-- What `normalize` makes of any map: its code regions are the runs of code addresses, the
other regions are those of the map, the regions are ascending and share no address, and
nothing changes the second time. It is what joining neighbouring code regions comes to,
in any order, each step one region fewer. -/
theorem normalize_canonical (m : MemoryMap) :
    (∀ a b : Nat,
        (∃ r ∈ m.normalize.regions, r.kind = .code ∧ r.first = a ∧ r.last = b) ↔
          m.CodeRun a b) ∧
      m.normalize.regions.filter (·.kind != .code) = m.regions.filter (·.kind != .code) ∧
      m.normalize.regions.Pairwise (fun r s => r.first < s.first) ∧
      m.normalize.regions.Pairwise (fun r s => ∀ a, ¬(a ∈ r ∧ a ∈ s)) ∧
      m.normalize.normalize = m.normalize ∧
      (∀ rs, Steps m.regions rs ∧ Final rs ↔ rs = m.normalize.regions) ∧
      ∀ rs ts, Step rs ts → ts.length + 1 = rs.length := by
  have hsettled := settled_normalize m
  have hruns : ∀ a b : Nat,
      (∃ r ∈ m.normalize.regions, r.kind = .code ∧ r.first = a ∧ r.last = b) ↔
        m.CodeRun a b := by
    intro a b
    rw [← codeRun_normalize]
    constructor
    · rintro ⟨r, hr, hcode, rfl, rfl⟩
      exact hsettled.codeRun hr hcode
    · exact hsettled.exists_of_codeRun
  have hothers : m.normalize.regions.filter (·.kind != .code) =
      m.regions.filter (·.kind != .code) := (steps_coalesce m.regions).filter_eq
  have htwice : m.normalize.normalize = m.normalize := by
    unfold normalize
    congr 1
    exact hsettled.coalesce_eq
  exact ⟨hruns, hothers, m.normalize.ascending.imp Region.Before.first_lt,
    m.normalize.ascending.imp Region.Before.disjoint, htwice, steps_final_iff m.regions,
    fun _ _ => Step.length⟩

end MemoryMap

end RomListing

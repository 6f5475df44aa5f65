import RomListing.Proofs.MemoryMap.LastWriter

/-! # Merging a moved map

A merge puts the regions of a map, moved by an offset, over another map, and the offset counts
modulo 64K. A region that stays in one piece goes where its addresses go. If its first address
stays before the end of the address space that its last one leaves, both ends are folded into the
space on their own and the region between them is put there, which is what the region does not
hold, with its two ends. At most one region of a map is moved so.
-/

namespace RomListing

/-- The address that the offset moves to `a`. -/
def origin (k : Int) (a : Nat) : Nat := (wrap (a - k)).toNat

namespace Region

/-- The region between the moved ends. -/
def moved (k : Int) (r : Region) : Region := .span (r.first + k) (r.last + k) r.kind

theorem kind_moved (k : Int) (r : Region) : (r.moved k).kind = r.kind := rfl

/-- The offset moves the last address of the region over the end of the address space and the
first one not. -/
def Wraps (r : Region) (k : Int) : Prop := wrap (r.last + k) < wrap (r.first + k)

instance (r : Region) (k : Int) : Decidable (r.Wraps k) :=
  inferInstanceAs (Decidable (wrap (r.last + k) < wrap (r.first + k)))

variable {r s : Region} {k : Int} {a : Nat}

theorem mem_moved (h : ¬r.Wraps k) (ha : a < 0x10000) : a ∈ r.moved k ↔ origin k a ∈ r := by
  have hle := r.first_le_last
  have hlt := r.last_lt
  unfold Wraps wrap at h
  simp only [moved, mem_def, span, origin, wrap]
  omega

/-- Of a region that wraps, only the ends are held where they should be. -/
theorem Wraps.mem_moved (h : r.Wraps k) (ha : a < 0x10000) :
    a ∈ r.moved k ↔ origin k a ≤ r.first ∨ r.last ≤ origin k a := by
  have hle := r.first_le_last
  have hlt := r.last_lt
  unfold Wraps wrap at h
  simp only [moved, mem_def, span, origin, wrap]
  omega

/-- There is one place only where the address space ends. -/
theorem Wraps.not_of_before (h : r.Wraps k) (hrs : r.Before s ∨ s.Before r) : ¬s.Wraps k := by
  have hr := r.first_le_last
  have hs := s.first_le_last
  have hrlt := r.last_lt
  have hslt := s.last_lt
  unfold Wraps wrap Before at *
  omega

end Region

namespace MemoryMap

variable {m : MemoryMap} {a : Nat} {k : Int}

/-! ## What a map says of an address -/

theorem kindAt?_eq_some_iff {kind : Region.Kind} :
    m.kindAt? a = some kind ↔ m.Holds a kind := by
  unfold kindAt? find?
  rw [Option.map_eq_some_iff]
  constructor
  · rintro ⟨r, hr, hkind⟩
    exact ⟨r, List.mem_of_find?_eq_some hr, by simpa using List.find?_some hr, hkind⟩
  · rintro ⟨r, hr, har, hkind⟩
    have hfound : (m.regions.find? (a ∈ ·)).isSome = true := by
      rw [List.find?_isSome]
      exact ⟨r, hr, by simpa using har⟩
    obtain ⟨s, hs⟩ := Option.isSome_iff_exists.1 hfound
    have has : a ∈ s := by simpa using List.find?_some hs
    -- no other region has the address
    rcases eq_or_of_pairwise m.ascending hr (List.mem_of_find?_eq_some hs) with rfl | hrs | hsr
    · exact ⟨r, hs, hkind⟩
    · exact absurd ⟨har, has⟩ (hrs.disjoint a)
    · exact absurd ⟨has, har⟩ (hsr.disjoint a)

theorem kindAt?_add (m : MemoryMap) (r : Region) (a : Nat) :
    (m.add r).kindAt? a = if a ∈ r then some r.kind else m.kindAt? a := by
  refine Option.ext fun kind => ?_
  rw [kindAt?_eq_some_iff, holds_add]
  split
  · rename_i ha
    simp [ha]
  · rename_i ha
    simp [ha, kindAt?_eq_some_iff]

def kindIn? (rs : List Region) (a : Nat) : Option Region.Kind :=
  (rs.find? (a ∈ ·)).map Region.kind

theorem kindIn?_append (rs ts : List Region) (a : Nat) :
    kindIn? (rs ++ ts) a = (kindIn? rs a <|> kindIn? ts a) := by
  unfold kindIn?
  rw [List.find?_append, Option.map_or, Option.orElse_eq_orElse, Option.orElse_eq_or]

theorem kindIn?_cons (r : Region) (rs : List Region) (a : Nat) :
    kindIn? (r :: rs) a = if a ∈ r then some r.kind else kindIn? rs a := by
  unfold kindIn?
  rw [List.find?_cons]
  split <;> simp_all

theorem kindIn?_eq_none {rs : List Region} (h : ∀ r ∈ rs, a ∉ r) : kindIn? rs a = none := by
  simpa [kindIn?] using h

/-! ## Regions put in one by one -/

def addMoved (k : Int) (m : MemoryMap) (rs : List Region) : MemoryMap :=
  rs.foldl (fun m r => m.add (r.moved k)) m

/-- Regions that stay in one piece hold what they held, each at its moved addresses. -/
theorem kindAt?_addMoved {rs : List Region} (hascend : rs.Pairwise Region.Before)
    (hwhole : ∀ r ∈ rs, ¬r.Wraps k) (m : MemoryMap) (ha : a < 0x10000) :
    (m.addMoved k rs).kindAt? a = (kindIn? rs (origin k a) <|> m.kindAt? a) := by
  induction rs generalizing m with
  | nil => rfl
  | cons r rs ih =>
      rw [List.pairwise_cons] at hascend
      rw [List.forall_mem_cons] at hwhole
      show ((m.add (r.moved k)).addMoved k rs).kindAt? a = _
      rw [ih hascend.2 hwhole.2, kindAt?_add, kindIn?_cons]
      by_cases hr : origin k a ∈ r
      · -- the regions behind it do not have the address
        have hbehind : kindIn? rs (origin k a) = none :=
          kindIn?_eq_none fun s hs hos => (hascend.1 s hs).disjoint _ ⟨hr, hos⟩
        rw [hbehind, if_pos hr, if_pos ((Region.mem_moved hwhole.1 ha).2 hr)]
        rfl
      · rw [if_neg hr, if_neg (hr ∘ (Region.mem_moved hwhole.1 ha).1)]

/-- What lies behind a region that wraps is put in after it, and what lies before it is hidden
at the moved ends. -/
theorem kindAt?_addMoved_of_wraps {before after : List Region} {c : Region}
    (hascend : (before ++ c :: after).Pairwise Region.Before) (hc : c.Wraps k) (m : MemoryMap)
    (ha : a < 0x10000) :
    (m.addMoved k (before ++ c :: after)).kindAt? a =
      (kindIn? after (origin k a) <|>
        if origin k a ≤ c.first ∨ c.last ≤ origin k a then some c.kind
        else kindIn? before (origin k a) <|> m.kindAt? a) := by
  rw [List.pairwise_append, List.pairwise_cons] at hascend
  obtain ⟨hbefore, ⟨hcafter, hafter⟩, hcross⟩ := hascend
  have hbeforeWhole : ∀ r ∈ before, ¬r.Wraps k := fun r hr =>
    hc.not_of_before (.inr (hcross r hr c List.mem_cons_self))
  have hafterWhole : ∀ r ∈ after, ¬r.Wraps k := fun r hr => hc.not_of_before (.inl (hcafter r hr))
  have hsplit : m.addMoved k (before ++ c :: after) =
      ((m.addMoved k before).add (c.moved k)).addMoved k after := by
    unfold addMoved
    rw [List.foldl_append, List.foldl_cons]
  rw [hsplit, kindAt?_addMoved hafter hafterWhole _ ha, kindAt?_add,
    kindAt?_addMoved hbefore hbeforeWhole _ ha]
  simp only [hc.mem_moved ha, Region.kind_moved]

theorem merge_eq_addMoved (m o : MemoryMap) (k : Int) : m.merge o k = m.addMoved k o.regions := rfl

/-- A region that wraps is put in the wrong way round: the addresses between its ends keep what
they had, and those outside get its kind unless a region behind it has them. -/
theorem kindAt?_merge_of_wraps {o : MemoryMap} {c : Region} (hc : c ∈ o.regions)
    (hwraps : c.Wraps k) (m : MemoryMap) (ha : a < 0x10000) :
    (m.merge o k).kindAt? a =
      if origin k a ≤ c.first ∨ origin k a = c.last then some c.kind
      else if origin k a < c.last then m.kindAt? a
      else o.kindAt? (origin k a) <|> some c.kind := by
  obtain ⟨before, after, hregions⟩ := List.append_of_mem hc
  have hascend := o.ascending
  have hown : o.kindAt? (origin k a) = kindIn? o.regions (origin k a) := rfl
  rw [hregions] at hascend hown
  rw [merge_eq_addMoved, hregions, kindAt?_addMoved_of_wraps hascend hwraps m ha]
  rw [kindIn?_append, kindIn?_cons] at hown
  rw [List.pairwise_append, List.pairwise_cons] at hascend
  obtain ⟨-, ⟨hcafter, -⟩, hcross⟩ := hascend
  have hle := c.first_le_last
  have hafter : origin k a ≤ c.last → kindIn? after (origin k a) = none := fun hb =>
    kindIn?_eq_none fun r hr hmem => absurd (hcafter r hr) (by
      unfold Region.Before
      rw [Region.mem_def] at hmem
      omega)
  have hbefore : c.first ≤ origin k a → kindIn? before (origin k a) = none := fun hb =>
    kindIn?_eq_none fun r hr hmem => absurd (hcross r hr c List.mem_cons_self) (by
      unfold Region.Before
      rw [Region.mem_def] at hmem
      omega)
  by_cases hends : origin k a ≤ c.first ∨ origin k a = c.last
  · rw [if_pos hends, if_pos (by omega), hafter (by omega)]
    rfl
  · rw [if_neg hends]
    by_cases hinside : origin k a < c.last
    · rw [if_pos hinside, if_neg (by omega), hafter (by omega), hbefore (by omega)]
      rfl
    · have hout : origin k a ∉ c := by
        rw [Region.mem_def]
        omega
      rw [if_neg hinside, if_pos (by omega), hown, hbefore (by omega), if_neg hout]
      rfl

/-- Which map an address of a merged map goes by. Where no region wraps, the moved map lies over
the other one; where one does, the addresses between its ends keep what they had. The merged map
is ascending in any case and no two of its regions share an address. -/
theorem merge_overlays (m o : MemoryMap) (k : Int) :
    let n := m.merge o k
    n.regions.Pairwise (fun r s => r.first < s.first) ∧
      n.regions.Pairwise (fun r s => ∀ a, ¬(a ∈ r ∧ a ∈ s)) ∧
      ((∀ r ∈ o.regions, ¬r.Wraps k) → ∀ a < 0x10000,
        n.kindAt? a = (o.kindAt? (origin k a) <|> m.kindAt? a)) ∧
      ∀ c ∈ o.regions, c.Wraps k → ∀ a < 0x10000,
        n.kindAt? a =
          if origin k a ≤ c.first ∨ origin k a = c.last then some c.kind
          else if origin k a < c.last then m.kindAt? a
          else o.kindAt? (origin k a) <|> some c.kind := by
  intro n
  refine ⟨n.ascending.imp Region.Before.first_lt, n.ascending.imp Region.Before.disjoint, ?_, ?_⟩
  · intro hwhole a ha
    exact kindAt?_addMoved o.ascending hwhole m ha
  · intro c hc hwraps a ha
    exact kindAt?_merge_of_wraps hc hwraps m ha

/-- A map moved by 4 over itself, and a region whose last address alone goes over the end. -/
theorem merge_overlays_itself :
    let m := ofList [.span 0 3 .code, .span 8 9 .bytes]
    let c := Region.span 0xFFF0 0xFFFF .bytes
    (∀ r ∈ m.regions, ¬r.Wraps 4) ∧
      (m.merge m 4).kindAt? 7 = (m.kindAt? (origin 4 7) <|> m.kindAt? 7) ∧
      c ∈ (ofList [c]).regions ∧ c.Wraps 8 ∧ (m.merge (ofList [c]) 8).kindAt? 0xFFFF = none :=
  let m := ofList [.span 0 3 .code, .span 8 9 .bytes]
  let c := Region.span 0xFFF0 0xFFFF .bytes
  have hwhole : ∀ r ∈ m.regions, ¬r.Wraps 4 := by decide
  have hc : c ∈ (ofList [c]).regions := by decide
  have hwraps : c.Wraps 8 := by decide
  ⟨hwhole, (merge_overlays m m 4).2.2.1 hwhole 7 (by decide), hc, hwraps,
    (merge_overlays m (ofList [c]) 8).2.2.2 c hc hwraps 0xFFFF (by decide)⟩

/-- Moved by 8, the last 16 addresses do not come to lie over the first ones. -/
theorem merge_not_overlay_over_end :
    let o := ofList [.span 0xFFF0 0xFFFF .bytes]
    (empty.merge o 8).regions = [.span 7 0xFFF8 .bytes] ∧
      (empty.merge o 8).kindAt? 0 ≠ (o.kindAt? (origin 8 0) <|> empty.kindAt? 0) := by
  decide

end MemoryMap

end RomListing

import RomListing.Proofs.MemoryMap.LastWriter
import RomListing.Proofs.Pass.Tiling
import RomListing.Proofs.Processor

/-! # A pass covers its window

The parts of a pass are what the regions of the map have in common with the window. Each is
tiled by its items, so that the items of a pass ascend and cover what the regions cover, and
two of them meet only where an instruction sticks out behind its part.
-/

namespace RomListing

namespace Region

theorem intersect_eq_some {r w p : Region} (h : r.intersect w = some p) :
    p.first = max r.first w.first ∧ p.last = min r.last w.last ∧ p.kind = r.kind := by
  unfold intersect at h
  split at h
  · cases h
    exact ⟨rfl, rfl, rfl⟩
  · cases h

theorem mem_of_intersect {r w p : Region} (h : r.intersect w = some p) (a : Nat) :
    a ∈ p ↔ a ∈ r ∧ a ∈ w := by
  obtain ⟨hfirst, hlast, -⟩ := intersect_eq_some h
  simp only [mem_def, hfirst, hlast]
  omega

theorem exists_intersect {r w : Region} {a : Nat} (hr : a ∈ r) (hw : a ∈ w) :
    ∃ p, r.intersect w = some p := by
  rw [mem_def] at hr hw
  exact ⟨_, dif_pos (by omega)⟩

end Region

/-- Parts list one after another what each of them lists. -/
theorem Pass.parts_lines {σ : Type} {job : Job} {ext : Extension σ} {f : Region → List Item}
    {rs : List Region} (h : ∀ r ∈ rs, ∀ p : Pass σ,
      (p.part job ext r).output.lines = p.output.lines ++ f r) (p : Pass σ) :
    (rs.foldl (Pass.part job ext) p).output.lines = p.output.lines ++ rs.flatMap f := by
  induction rs generalizing p with
  | nil => exact (List.append_nil _).symm
  | cons r rs ih =>
      rw [List.foldl_cons, ih fun t ht => h t (List.mem_cons_of_mem _ ht), h r List.mem_cons_self,
        List.flatMap_cons, List.append_assoc]

namespace Job

variable {job : Job} {window : Region}

/-! ## Windows and parts -/

/-- A range that meets an image in the address space is cut to what both have in common. -/
theorem window_eq_some {first last : Int} (hmask : job.cpu.addressMask = 0xFFFF)
    (hbase : 0 ≤ job.setting.image.base)
    (hrange : max first job.setting.image.base ≤ min last (min job.setting.image.last 0xFFFF)) :
    ∃ window, job.window first last = some window ∧
      (window.first : Int) = max first job.setting.image.base ∧
      (window.last : Int) = min last (min job.setting.image.last 0xFFFF) := by
  unfold window
  rw [hmask]
  dsimp only
  rw [if_neg (by omega)]
  -- both ends are addresses already, and in order
  refine ⟨_, rfl, ?_, ?_⟩
  all_goals
    simp only [Region.span]
    rw [wrap_of_lt (by omega) (by omega), wrap_of_lt (by omega) (by omega)]
    omega

theorem bytes_nonempty (job : Job) {first last : Int}
    (hrange : max first job.setting.image.base ≤ min last (min job.setting.image.last 0xFFFF)) :
    job.setting.image.bytes.isEmpty = false := by
  have hsize : 0 < job.setting.image.bytes.size := by
    unfold Image.last at hrange
    omega
  rwa [Array.isEmpty_eq_false_iff, ← Array.size_pos_iff]

theorem parts_ascend (job : Job) (window : Region) :
    (job.parts window).Pairwise Region.Before := by
  refine List.Pairwise.filterMap _ ?_ job.map.ascending
  intro r t hrt p hp u hu
  obtain ⟨-, hlast, -⟩ := Region.intersect_eq_some hp
  obtain ⟨hfirst, -, -⟩ := Region.intersect_eq_some hu
  unfold Region.Before at *
  omega

theorem mem_parts {p : Region} (h : p ∈ job.parts window) :
    ∃ r ∈ job.map.regions, p.kind = r.kind ∧ ∀ a, a ∈ p ↔ a ∈ r ∧ a ∈ window := by
  obtain ⟨r, hr, hp⟩ := List.mem_filterMap.1 h
  exact ⟨r, hr, (Region.intersect_eq_some hp).2.2, Region.mem_of_intersect hp⟩

theorem exists_part {r : Region} {a : Nat} (hr : r ∈ job.map.regions) (ha : a ∈ r)
    (hw : a ∈ window) : ∃ p ∈ job.parts window, a ∈ p := by
  obtain ⟨p, hp⟩ := Region.exists_intersect ha hw
  exact ⟨p, List.mem_filterMap.2 ⟨r, hr, hp⟩, (Region.mem_of_intersect hp a).2 ⟨ha, hw⟩⟩

theorem part_bounds {p : Region} (h : p ∈ job.parts window) :
    window.first ≤ p.first ∧ p.last ≤ window.last := by
  obtain ⟨r, -, hp⟩ := List.mem_filterMap.1 h
  obtain ⟨hfirst, hlast, -⟩ := Region.intersect_eq_some hp
  omega

theorem part_unique {p p' : Region} (hp : p ∈ job.parts window) (hp' : p' ∈ job.parts window)
    {a : Nat} (ha : a ∈ p) (ha' : a ∈ p') : p = p' := by
  rcases eq_or_of_pairwise (job.parts_ascend window) hp hp' with heq | hr | hr
  · exact heq
  · exact absurd ⟨ha, ha'⟩ (hr.disjoint a)
  · exact absurd ⟨ha', ha⟩ (hr.disjoint a)

/-! ## Items and addresses -/

def lines (job : Job) (window : Region) : List Item :=
  (job.parts window).flatMap (job.cpu.lines job.setting)

/-- The item stands for the address: the address is one of its bytes, or the item is the line
of the gap that the address lies in. -/
def Covers (job : Job) (window : Region) (item : Item) (x : Nat) : Prop :=
  (job.setting.place item ≤ x ∧ x < job.setting.place item + item.opcodes.length) ∨
    ∃ p ∈ job.parts window, p.kind = .gap ∧ item = job.cpu.gapLine job.setting p ∧ x ∈ p

def StartsIn (job : Job) (p : Region) (item : Item) : Prop :=
  ∃ x : Nat, job.setting.place item = x ∧ x ∈ p

/-- The address follows the end of a code part, and the last item that starts in the part
covers the address. -/
def Straddled (job : Job) (window : Region) (longest : Nat) (items : List Item) (x : Nat) : Prop :=
  ∃ p ∈ job.parts window, p.kind = .code ∧ p.last < x ∧ x < p.last + longest ∧
    ∃ k ∈ items, job.StartsIn p k ∧ job.Covers window k x ∧
      ∀ i ∈ items, job.StartsIn p i → job.setting.place i ≤ job.setting.place k

structure Fits (job : Job) (window : Region) : Prop where
  base : 0 ≤ job.setting.image.base
  first : job.setting.image.base ≤ window.first
  last : window.last ≤ job.setting.image.last

section

variable {a : Alphabet} {longest : Nat} {p : Region} {item : Item}

theorem Fits.tiles (hw : job.Fits window) (h : job.cpu.Sound a longest)
    (hp : p ∈ job.parts window) :
    job.cpu.Tiles longest job.setting p (job.cpu.lines job.setting p) := by
  have hbounds := part_bounds hp
  have hfirst := hw.first
  have hlast := hw.last
  exact h.lines_tile hw.base (by omega) (by omega)

theorem Fits.startsIn (hw : job.Fits window) (h : job.cpu.Sound a longest)
    (hp : p ∈ job.parts window) (hi : item ∈ job.cpu.lines job.setting p) :
    job.StartsIn p item := by
  obtain ⟨⟨stop, hchain, -, -⟩, hstarts⟩ := hw.tiles h hp
  have hfirst := (hchain.within item hi).1
  have hlast := (hstarts item hi).1
  exact ⟨(job.setting.place item).toNat, by omega, by rw [Region.mem_def]; omega⟩

theorem StartsIn.unique {p' : Region} (hi : job.StartsIn p item) (hi' : job.StartsIn p' item)
    (hp : p ∈ job.parts window) (hp' : p' ∈ job.parts window) : p = p' := by
  obtain ⟨x, hx, hxp⟩ := hi
  obtain ⟨y, hy, hyp'⟩ := hi'
  rw [hx, Int.ofNat_inj] at hy
  exact part_unique hp hp' hxp (hy ▸ hyp')

theorem startsIn_gapLine (h : job.cpu.Sound a longest) (p : Region) :
    job.StartsIn p (job.cpu.gapLine job.setting p) :=
  ⟨p.first, h.place_gapLine job.setting p, Nat.le_refl _, p.first_le_last⟩

theorem Fits.lines_ascend (hw : job.Fits window) (h : job.cpu.Sound a longest) :
    (job.lines window).Pairwise fun i j => job.setting.place i < job.setting.place j := by
  refine List.pairwise_flatMap.2 ⟨?_, ?_⟩
  · intro p hp
    obtain ⟨⟨stop, hchain, -, -⟩, -⟩ := hw.tiles h hp
    exact hchain.pairwise.imp And.left
  · refine (job.parts_ascend window).imp_of_mem ?_
    intro p p' hp hp' hbefore i hi j hj
    obtain ⟨x, hx, hxp⟩ := hw.startsIn h hp hi
    obtain ⟨y, hy, hyp⟩ := hw.startsIn h hp' hj
    rw [Region.mem_def] at hxp hyp
    unfold Region.Before at hbefore
    omega

/-- What an item of a part covers are the addresses that it stretches over. -/
theorem Fits.covers_iff (hw : job.Fits window) (h : job.cpu.Sound a longest)
    (hp : p ∈ job.parts window) (hi : item ∈ job.cpu.lines job.setting p) (x : Nat) :
    job.Covers window item x ↔ job.setting.place item ≤ x ∧
      x < job.setting.place item + p.stretch item := by
  have hplen : p.length = p.last - p.first + 1 := rfl
  have hple := p.first_le_last
  by_cases hk : p.kind = .gap
  · -- the line of the gap has no bytes and stands for the whole gap
    have hline : item = job.cpu.gapLine job.setting p :=
      ((hw.tiles h hp).starts item hi).2.of_gap hk
    have hplace := h.place_gapLine job.setting p
    have hbytes : item.opcodes.length = 0 := by rw [hline]; rfl
    have hstretch : p.stretch item = p.length := if_pos hk
    rw [← hline] at hplace
    constructor
    · rintro (hx | ⟨p', hp', -, hline', hx⟩)
      · omega
      · have hsame : p = p' :=
          (hw.startsIn h hp hi).unique (hline' ▸ startsIn_gapLine h p') hp hp'
        rw [← hsame, Region.mem_def] at hx
        omega
    · intro hx
      exact .inr ⟨p, hp, hk, hline, by rw [Region.mem_def]; omega⟩
  · rw [p.stretch_of_ne hk]
    constructor
    · rintro (hx | ⟨p', hp', hk', hline', -⟩)
      · exact hx
      · have hsame : p = p' :=
          (hw.startsIn h hp hi).unique (hline' ▸ startsIn_gapLine h p') hp hp'
        exact absurd (hsame ▸ hk') hk
    · exact .inl

theorem Fits.exists_covers (hw : job.Fits window) (h : job.cpu.Sound a longest)
    (hp : p ∈ job.parts window) {x : Nat} (hx : x ∈ p) :
    ∃ item ∈ job.lines window, job.StartsIn p item ∧ job.Covers window item x := by
  obtain ⟨⟨stop, hchain, hreach, -⟩, -⟩ := hw.tiles h hp
  rw [Region.mem_def] at hx
  obtain ⟨item, hi, hcover⟩ := hchain.covers (x := x) (by omega) (by omega)
  exact ⟨item, List.mem_flatMap.2 ⟨p, hp, hi⟩, hw.startsIn h hp hi,
    (hw.covers_iff h hp hi x).2 hcover⟩

/-- An item that covers an address behind its part straddles the end of the part. -/
theorem Fits.straddled (hw : job.Fits window) (h : job.cpu.Sound a longest)
    (hp : p ∈ job.parts window) (hi : item ∈ job.cpu.lines job.setting p) {x : Nat}
    (hx : job.Covers window item x) (hlast : p.last < x) :
    job.Straddled window longest (job.lines window) x := by
  have hcover := (hw.covers_iff h hp hi x).1 hx
  obtain ⟨hk, hclose, hmax⟩ := (hw.tiles h hp).sticks_out hi hcover.2 (by omega)
  refine ⟨p, hp, hk, hlast, by omega, item, List.mem_flatMap.2 ⟨p, hp, hi⟩,
    hw.startsIn h hp hi, hx, ?_⟩
  intro i hmem hstart
  obtain ⟨p', hp', hi'⟩ := List.mem_flatMap.1 hmem
  have hsame := hstart.unique (hw.startsIn h hp' hi') hp hp'
  exact hmax i (hsame ▸ hi')

/-- Two items that cover one address do so behind the end of a code part. -/
theorem Fits.covers_twice (hw : job.Fits window) (h : job.cpu.Sound a longest) {i j : Item}
    (hi : i ∈ job.lines window) (hj : j ∈ job.lines window) (hne : i ≠ j) {x : Nat}
    (hxi : job.Covers window i x) (hxj : job.Covers window j x) :
    job.Straddled window longest (job.lines window) x := by
  obtain ⟨p, hp, hip⟩ := List.mem_flatMap.1 hi
  obtain ⟨p', hp', hjp⟩ := List.mem_flatMap.1 hj
  have hcover := (hw.covers_iff h hp hip x).1 hxi
  have hcover' := (hw.covers_iff h hp' hjp x).1 hxj
  obtain ⟨y, hy, hyp⟩ := hw.startsIn h hp hip
  obtain ⟨z, hz, hzp'⟩ := hw.startsIn h hp' hjp
  rw [Region.mem_def] at hyp hzp'
  rcases eq_or_of_pairwise (job.parts_ascend window) hp hp' with rfl | hbefore | hbefore
  · obtain ⟨⟨stop, hchain, -, -⟩, -⟩ := hw.tiles h hp
    rcases eq_or_of_pairwise hchain.pairwise hip hjp with heq | hr | hr
    · exact absurd heq hne
    · omega
    · omega
  · -- the item of the earlier part reaches an address of the later one
    unfold Region.Before at hbefore
    exact hw.straddled h hp hip hxi (by omega)
  · unfold Region.Before at hbefore
    exact hw.straddled h hp' hjp hxj (by omega)

end

/-! ## Runs -/

/-- A run lists what its parts list, if what a part lists depends on the part alone. An output is
there whenever the range meets the image in the address space. -/
theorem run_lists {σ : Type} (job : Job) (ext : Extension σ) (state : σ) {f : Region → List Item}
    (first last : Int) (hmask : job.cpu.addressMask = 0xFFFF) (hbase : 0 ≤ job.setting.image.base)
    (hrange : max first job.setting.image.base ≤ min last (min job.setting.image.last 0xFFFF))
    (hpart : ∀ r : Region, job.setting.image.base ≤ r.first → r.last ≤ job.setting.image.last →
      ∀ p : Pass σ, (p.part job ext r).output.lines = p.output.lines ++ f r) :
    ∃ o window, (job.run ext state first last).output = some o ∧
      job.window first last = some window ∧
      (window.first : Int) = max first job.setting.image.base ∧
      (window.last : Int) = min last (min job.setting.image.last 0xFFFF) ∧
      o.lines = (job.parts window).flatMap f := by
  obtain ⟨window, hwindow, hfirst, hlast⟩ := window_eq_some hmask hbase hrange
  have hparts : ∀ r ∈ job.parts window, ∀ p : Pass σ,
      (p.part job ext r).output.lines = p.output.lines ++ f r := by
    intro r hr
    have hbounds := part_bounds hr
    exact hpart r (by omega) (by omega)
  refine ⟨job.listing ext state window, window, ?_, hwindow, hfirst, hlast, ?_⟩
  · rw [run_output, job.bytes_nonempty hrange, hwindow]
    rfl
  · exact (Output.lines_fixup _).trans (Pass.parts_lines hparts _)

/-- A run over a range that meets the image in the address space gives the lines of the parts
of a window that fits. -/
theorem run_lines (job : Job) {a : Alphabet} {longest : Nat} (h : job.cpu.Sound a longest)
    (first last : Int)
    (hbase : 0 ≤ job.setting.image.base)
    (hrange : max first job.setting.image.base ≤ min last (min job.setting.image.last 0xFFFF)) :
    ∃ o window, (job.run .absent () first last).output = some o ∧
      job.window first last = some window ∧ job.Fits window ∧
      (window.first : Int) = max first job.setting.image.base ∧
      (window.last : Int) = min last (min job.setting.image.last 0xFFFF) ∧
      o.lines = job.lines window := by
  obtain ⟨window, hwindow, hfirst, hlast⟩ := window_eq_some h.mask hbase hrange
  have hsome : (job.run .absent () first last).output.isSome = true := by
    rw [run_isSome, job.bytes_nonempty hrange, hwindow]
    rfl
  obtain ⟨o, ho⟩ := Option.isSome_iff_exists.1 hsome
  obtain ⟨window', hwindow', hextends⟩ := run_extends h ho
  rw [hwindow, Option.some_inj] at hwindow'
  subst hwindow'
  exact ⟨o, window, ho, hwindow, ⟨hbase, by omega, by omega⟩, hfirst, hlast, hextends.lines⟩

/-- A pass without an extension over a range that meets the image in the address space: the
places of its items ascend, also from part to part; every item stands at an address of the
window that some region has, and is of the form that the latest such region asks for; every
address of the window that some region has is covered by an item of its own part, in a gap by
the line of the gap; and an address is covered by two items only if it is one of the first
`longest - 1` after the end of a code part, where the last instruction of the part straddles
the end. -/
theorem run_covers_window (q : Processor) (rs : List Region) (s : Setting) (first last : Int)
    (hbase : 0 ≤ s.image.base)
    (hrange : max first s.image.base ≤ min last (min s.image.last 0xFFFF)) :
    let job : Job := ⟨q.instructionSet, .ofList rs, s⟩
    ∃ o window, (job.run .absent () first last).output = some o ∧
      job.window first last = some window ∧
      (window.first : Int) = max first s.image.base ∧
      (window.last : Int) = min last (min s.image.last 0xFFFF) ∧
      o.lines.Pairwise (fun i j => s.place i < s.place j) ∧
      (∀ i ∈ o.lines, ∃ x : Nat, s.place i = x ∧ x ∈ window ∧
        ∃ r, Region.LatestWith rs x r ∧
          ∃ p ∈ job.parts window, x ∈ p ∧ p.kind = r.kind ∧ job.cpu.Form s p x i) ∧
      (∀ x ∈ window, (∃ r ∈ rs, x ∈ r) → ∃ p ∈ job.parts window, x ∈ p ∧
        ∃ i ∈ o.lines, job.StartsIn p i ∧ job.Covers window i x) ∧
      ∀ x, ∀ i ∈ o.lines, ∀ j ∈ o.lines, i ≠ j →
        job.Covers window i x → job.Covers window j x →
        job.Straddled window q.longest o.lines x := by
  intro job
  have h : job.cpu.Sound q.alphabet q.longest := q.sound
  obtain ⟨o, window, ho, hwindow, hw, hfirst, hlast, hlines⟩ :=
    run_lines job h first last hbase hrange
  refine ⟨o, window, ho, hwindow, hfirst, hlast, ?_⟩
  rw [hlines]
  refine ⟨hw.lines_ascend h, ?_, ?_, ?_⟩
  · intro i hi
    obtain ⟨p, hp, hip⟩ := List.mem_flatMap.1 hi
    obtain ⟨x, hx, hxp⟩ := hw.startsIn h hp hip
    obtain ⟨r, hr, hkind, hmem⟩ := mem_parts hp
    obtain ⟨hxr, hxw⟩ := (hmem x).1 hxp
    have hheld : (MemoryMap.ofList rs).Holds x r.kind := ⟨r, hr, hxr, rfl⟩
    obtain ⟨t, hlatest, ht⟩ := MemoryMap.exists_latestWith_of_holds hheld
    have hform := ((hw.tiles h hp).starts i hip).2
    rw [show job.setting.place i = x from hx] at hform
    exact ⟨x, hx, hxw, t, hlatest, p, hp, hxp, hkind.trans ht.symm, hform⟩
  · rintro x hxw ⟨r, hr, hxr⟩
    obtain ⟨k, t, ht, hxt, -⟩ := MemoryMap.exists_holds_of_mem hr hxr
    have htjob : t ∈ job.map.regions := ht
    obtain ⟨p, hp, hxp⟩ := exists_part htjob hxt hxw
    exact ⟨p, hp, hxp, hw.exists_covers h hp hxp⟩
  · intro x i hi j hj hne hxi hxj
    exact hw.covers_twice h hi hj hne hxi hxj

/-- A jump at the end of a code region, with a byte region put over its operand: the items at
0 and at 1 both cover 1 and 2. -/
theorem run_covers_window_split_jump :
    let s : Setting := { image := { bytes := #[0xC3, 0x34, 0x12, 0x00] } }
    let job : Job := ⟨Processor.z80.instructionSet,
      .ofList [.span 0 2 .code, .span 1 3 .bytes], s⟩
    ∃ o window, (job.run .absent () 0 0xFFFF).output = some o ∧
      o.lines.map s.place = [0, 1] ∧
      o.lines.Pairwise (fun i j => s.place i < s.place j) ∧
      ∀ x, ∀ i ∈ o.lines, ∀ j ∈ o.lines, i ≠ j →
        job.Covers window i x → job.Covers window j x → job.Straddled window 4 o.lines x := by
  intro s job
  obtain ⟨o, window, ho, -, -, -, hascend, -, -, htwice⟩ := run_covers_window .z80
    [.span 0 2 .code, .span 1 3 .bytes] s 0 0xFFFF (by decide) (by decide)
  have hplaces : (job.run .absent () 0 0xFFFF).output.map (·.lines.map s.place) = some [0, 1] := by
    decide +kernel
  rw [show (job.run .absent () 0 0xFFFF).output = some o from ho] at hplaces
  exact ⟨o, window, ho, Option.some_inj.1 hplaces, hascend, htwice⟩

end Job

end RomListing

import RomListing.Proofs.Machine.Independence
import RomListing.Proofs.Pass.Coverage

/-! # The address offset is a relocation

To show a listing at other addresses, the address offset may be raised or the image, the map and
the request may be moved: the outputs are the same. Moving a map puts its regions into an empty
one, and as they ascend each of them stays whole.
-/

namespace RomListing

/-! ## Moving a map -/

namespace Region

theorem meets_span {r : Region} {k : Int} (hfirst : 0 ≤ r.first + k) (hlast : r.last + k ≤ 0xFFFF) :
    r.Meets k (.span (r.first + k) (r.last + k) r.kind) := by
  have := r.first_le_last
  refine ⟨?_, ?_, rfl⟩
  all_goals
    simp only [span]
    rw [wrap_of_lt (by omega) (by omega), wrap_of_lt (by omega) (by omega)]
    omega

theorem Meets.intersect {k : Int} {r r' w w' : Region} (hr : r.Meets k r') (hw : w.Meets k w') :
    Option.Rel (Region.Meets k) (r.intersect w) (r'.intersect w') := by
  have hr₁ := hr.first
  have hr₂ := hr.last
  have hw₁ := hw.first
  have hw₂ := hw.last
  unfold Region.intersect
  by_cases h : w.first ≤ r.last ∧ r.first ≤ w.last
  · rw [dif_pos h, dif_pos (by omega)]
    exact .some ⟨by dsimp only; omega, by dsimp only; omega, hr.kind⟩
  · rw [dif_neg h, dif_neg (by omega)]
    exact .none

end Region

namespace MemoryMap

/-- A region behind all others is put behind them and changes none. -/
theorem regions_add_of_before {m : MemoryMap} {r : Region} (h : ∀ t ∈ m.regions, t.Before r) :
    (m.add r).regions = m.regions ++ [r] := by
  have hr := r.first_le_last
  have hbelow : m.regions.filterMap (·.below? r.first) = m.regions := by
    refine (List.filterMap_congr fun t ht => ?_).trans List.filterMap_some
    have hlast : t.last < r.first := h t ht
    have hfirst := t.first_le_last
    have hmin : min t.last (r.first - 1) = t.last := by omega
    simp only [Region.below?, hmin]
    rw [dif_pos (by omega)]
  have habove : m.regions.filterMap (·.above? r.last) = [] := by
    refine List.filterMap_eq_nil_iff.2 fun t ht => ?_
    have hlast : t.last < r.first := h t ht
    exact dif_neg (by omega)
  show m.regions.filterMap (·.below? r.first) ++ r :: m.regions.filterMap (·.above? r.last) = _
  rw [hbelow, habove]

/-- Regions that ascend and stay in the address space are moved behind what a map holds, one by
one, as long as all of them lie behind it. -/
theorem regions_foldl_add {k : Int} {rs : List Region} (hascend : rs.Pairwise Region.Before)
    (hin : ∀ r ∈ rs, 0 ≤ (r.first : Int) + k ∧ (r.last : Int) + k ≤ 0xFFFF) (m : MemoryMap)
    (hm : ∀ t ∈ m.regions, ∀ r ∈ rs, (t.last : Int) < r.first + k) :
    (rs.foldl (fun m r => m.add (.span (r.first + k) (r.last + k) r.kind)) m).regions =
      m.regions ++ rs.map fun r => .span (r.first + k) (r.last + k) r.kind := by
  induction rs generalizing m with
  | nil => simp
  | cons r rs ih =>
      rw [List.pairwise_cons] at hascend
      have hmeets := Region.meets_span (hin r (by simp)).1 (hin r (by simp)).2
      have hfirst := hmeets.first
      have hlast := hmeets.last
      simp only [List.foldl_cons, List.map_cons]
      generalize Region.span (r.first + k) (r.last + k) r.kind = moved at *
      have hadd : (m.add moved).regions = m.regions ++ [moved] := by
        refine regions_add_of_before fun t ht => ?_
        have := hm t ht r (by simp)
        unfold Region.Before
        omega
      have hbehind : ∀ t ∈ (m.add moved).regions, ∀ u ∈ rs, (t.last : Int) < u.first + k := by
        intro t ht u hu
        rw [hadd] at ht
        rcases List.mem_append.1 ht with ht | ht
        · exact hm t ht u (List.mem_cons_of_mem _ hu)
        · have hbefore : r.last < u.first := hascend.1 u hu
          rw [List.mem_singleton.1 ht]
          omega
      rw [ih hascend.2 (fun t ht => hin t (List.mem_cons_of_mem _ ht)) _ hbehind, hadd,
        List.append_assoc, List.singleton_append]

/-- The regions of a moved map are those of the map, each moved. -/
theorem regions_merge_empty {m : MemoryMap} {k : Int}
    (h : ∀ r ∈ m.regions, 0 ≤ (r.first : Int) + k ∧ (r.last : Int) + k ≤ 0xFFFF) :
    (empty.merge m k).regions =
      m.regions.map fun r => .span (r.first + k) (r.last + k) r.kind :=
  regions_foldl_add m.ascending h empty (by simp [empty])

theorem merge_empty_meets {m : MemoryMap} {k : Int}
    (h : ∀ r ∈ m.regions, 0 ≤ (r.first : Int) + k ∧ (r.last : Int) + k ≤ 0xFFFF) :
    List.Forall₂ (Region.Meets k) m.regions (empty.merge m k).regions := by
  rw [regions_merge_empty h, List.forall₂_map_right_iff, List.forall₂_same]
  intro r hr
  exact Region.meets_span (h r hr).1 (h r hr).2

end MemoryMap

/-! ## Moving a request -/

namespace Job

variable {job job' : Job} {k : Int}

theorem window_kind {first last : Int} {window : Region}
    (h : job.window first last = some window) : window.kind = .code := by
  unfold Job.window at h
  dsimp only at h
  split at h
  · cases h
  · cases h
    rfl

/-- As long as an image and the moved one lie in the address space, moved requests are cut to
moved windows. -/
theorem Meets.window (hj : job.Meets k job') (hmask : job.cpu.addressMask = 0xFFFF)
    (hbase : 0 ≤ job.setting.image.base) (hbase' : 0 ≤ job.setting.image.base + k)
    (hlast : job.setting.image.last ≤ 0xFFFF) (hlast' : job.setting.image.last + k ≤ 0xFFFF)
    (first last : Int) : Option.Rel (Region.Meets k) (job.window first last)
      (job'.window (first + k) (last + k)) := by
  have hmask' : job'.cpu.addressMask = 0xFFFF := hj.cpu ▸ hmask
  have hmoved : job'.setting.image.base = job.setting.image.base + k := by
    rw [hj.setting]
    rfl
  have hend : job'.setting.image.last = job.setting.image.last + k := by
    rw [hj.setting]
    simp only [Image.last, Setting.move]
    omega
  by_cases hrange : max first job.setting.image.base ≤
      min last (min job.setting.image.last 0xFFFF)
  · obtain ⟨w, hw, hfirst, hlast⟩ := window_eq_some hmask hbase hrange
    have hrange' : max (first + k) job'.setting.image.base ≤
        min (last + k) (min job'.setting.image.last 0xFFFF) := by omega
    obtain ⟨w', hw', hfirst', hlast'⟩ := window_eq_some hmask' (by omega) hrange'
    rw [hw, hw']
    exact .some ⟨by omega, by omega, (window_kind hw').trans (window_kind hw).symm⟩
  · have hnone : job.window first last = none := by
      rw [← Option.not_isSome_iff_eq_none, window_isSome hmask]
      exact hrange
    have hnone' : job'.window (first + k) (last + k) = none := by
      rw [← Option.not_isSome_iff_eq_none, window_isSome hmask']
      omega
    rw [hnone, hnone']
    exact .none

theorem parts_meets (hmap : List.Forall₂ (Region.Meets k) job.map.regions job'.map.regions)
    {window window' : Region} (hw : window.Meets k window') :
    List.Forall₂ (Region.Meets k) (job.parts window) (job'.parts window') :=
  List.rel_filterMap (fun _ _ hr => hr.intersect hw) hmap

theorem run_output_meets {σ : Type} {ext : Extension σ} {a : Alphabet} {longest : Nat}
    (h : job.cpu.Sound a longest) (hm : job.cpu.Movable) (hx : ext.Local) (hj : job.Meets k job')
    (hmap : List.Forall₂ (Region.Meets k) job.map.regions job'.map.regions)
    {first last first' last' : Int}
    (hwindow : Option.Rel (Region.Meets k) (job.window first last) (job'.window first' last'))
    (state state' : σ) :
    (job'.run ext state' first' last').output = (job.run ext state first last).output := by
  have hbytes : job'.setting.image.bytes = job.setting.image.bytes := by
    rw [hj.setting]
    rfl
  rw [run_output, run_output, hbytes]
  generalize job.window first last = w at hwindow ⊢
  generalize job'.window first' last' = w' at hwindow ⊢
  cases hwindow with
  | none => rw [Option.map_none, Option.map_none]
  | some hw =>
      rw [Option.map_some, Option.map_some,
        listing_meets h hm hx hj (parts_meets hmap hw) state state']

end Job

namespace Machine

/-- Raising the address offset by `k` gives the same output as moving the image, the map and the
request by `k`, under any conventions, if the image and the map stay in the address space and no
partition has a name. -/
theorem run_relocated (q : Processor) (machine : Option Machine) (map : MemoryMap)
    (bytes : Array UInt8) (options : Options) (base k offset first last : Int)
    (hnames : options.partitions.getD [] = [])
    (hbase : 0 ≤ base) (hbase' : 0 ≤ base + k)
    (hlast : base + bytes.size - 1 ≤ 0xFFFF) (hlast' : base + k + bytes.size - 1 ≤ 0xFFFF)
    (hmap : ∀ r ∈ map.regions, 0 ≤ (r.first : Int) + k ∧ (r.last : Int) + k ≤ 0xFFFF) :
    (run machine ⟨q.instructionSet, map, ⟨⟨bytes, base⟩, offset + k, options⟩⟩ first last).1 =
      (run machine ⟨q.instructionSet, MemoryMap.empty.merge map k,
        ⟨⟨bytes, base + k⟩, offset, options⟩⟩ (first + k) (last + k)).1 := by
  obtain ⟨σ, ext, fresh, hx, hrun, -⟩ := exists_extension machine
  have hj : Job.Meets k ⟨q.instructionSet, map, ⟨⟨bytes, base⟩, offset + k, options⟩⟩
      ⟨q.instructionSet, MemoryMap.empty.merge map k, ⟨⟨bytes, base + k⟩, offset, options⟩⟩ := by
    refine ⟨rfl, ?_, Options.repeats_of_unnamed hnames k⟩
    simp only [Setting.move, Int.add_sub_cancel]
  have hend : Image.last ⟨bytes, base⟩ + k ≤ 0xFFFF := by
    simp only [Image.last]
    omega
  rw [hrun, hrun]
  exact (Job.run_output_meets q.sound q.movable hx hj (MemoryMap.merge_empty_meets hmap)
    (hj.window q.sound.mask hbase hbase' hlast hend first last) fresh fresh).symm

/-- A calculator call whose byte code jumps, shown at 0x8000 both ways. -/
theorem run_relocated_calculator_jump :
    let bytes : Array UInt8 := #[0xEF, 0x33, 0x02, 0xC9]
    let map := MemoryMap.ofList [.span 0 3 .code]
    let machine := some (.spectrum [(2, .basic)])
    let output :=
      (run machine ⟨Processor.z80.instructionSet, map, ⟨⟨bytes, 0⟩, 0x8000, {}⟩⟩ 0 3).1
    output = (run machine ⟨Processor.z80.instructionSet, MemoryMap.empty.merge map 0x8000,
        ⟨⟨bytes, 0x8000⟩, 0, {}⟩⟩ 0x8000 0x8003).1 ∧
      output.map (·.labels) = some [⟨0x8004, [0x8001]⟩] := by
  intro bytes map machine output
  refine ⟨?_, by decide +kernel⟩
  exact run_relocated .z80 machine map bytes {} 0 0x8000 0 0 3 rfl (by decide) (by decide)
    (by decide) (by decide) (by decide)

end Machine

end RomListing

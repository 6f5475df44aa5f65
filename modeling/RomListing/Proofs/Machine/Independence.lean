import RomListing.Proofs.Pass.CrossReference
import RomListing.Proofs.Relocation.Pass

/-! # Nothing leaks out of a part or out of a pass

A pass lists every part of a map as if the part stood alone, and a machine answers every request
as if it were the first one. What an extension, a cursor or a decoder keeps from what came before
is either set anew before it is looked at, or never looked at.
-/

namespace RomListing

open Output (Alike)

section

variable {σ : Type} {job : Job} {ext : Extension σ} {a : Alphabet} {longest : Nat}

/-! ## Parts -/

theorem Job.meets_map (job : Job) (map : MemoryMap) : job.Meets 0 { job with map := map } :=
  ⟨rfl, job.setting.move_zero.symm, job.setting.options.repeats_zero⟩

/-- The outputs of passes over one region each are joined by a pass over all of them, whatever
that pass held before. -/
theorem Pass.parts_join (h : job.cpu.Sound a longest) (hm : job.cpu.Movable) (hx : ext.Local)
    (state : σ) (window : Region) (rs : List Region) (p : Pass σ) {os : List Output}
    (hp : p.output.Joins os) :
    ((rs.filterMap (·.intersect window)).foldl (Pass.part job ext) p).output.Joins
      (os ++ rs.map fun r => Job.listing { job with map := .ofList [r] } ext state window) := by
  induction rs generalizing p os with
  | nil =>
      rw [List.map_nil, List.append_nil]
      exact hp
  | cons r rs ih =>
      let single : Job := { job with map := .ofList [r] }
      have hparts : single.parts window = (r.intersect window).toList := by
        have hfilter : single.parts window = [r].filterMap (·.intersect window) := rfl
        rw [hfilter, List.filterMap_cons, List.filterMap_nil]
        cases r.intersect window <;> rfl
      rw [List.map_cons, List.append_cons, List.filterMap_cons]
      cases hpart : r.intersect window with
      | none =>
          -- nothing of the region lies in the window, and alone it lists nothing
          have hempty : single.listing ext state window = {} := by
            unfold Job.listing
            rw [hparts, hpart]
            rfl
          refine ih p ?_
          rw [hempty]
          exact hp.snoc (.refl p.output {})
      | some part =>
          let fresh : Pass σ := { cursor := { offset := 0 }, state := state }
          have hone : single.listing ext state window =
              (fresh.part single ext part).output.fixup := by
            unfold Job.listing
            rw [hparts, hpart]
            rfl
          refine ih (p.part job ext part) ?_
          rw [hone]
          exact hp.snoc (Pass.part_alike h hm hx (job.meets_map _) p fresh part.meets_self)

/-- A run over a map joins the runs over its regions. -/
theorem Job.run_joins (h : job.cpu.Sound a longest) (hm : job.cpu.Movable) (hx : ext.Local)
    (state : σ) (first last : Int) {o : Output}
    (ho : (job.run ext state first last).output = some o) :
    ∃ os : List Output,
      job.map.regions.map (fun r =>
        (Job.run { job with map := .ofList [r] } ext state first last).output) = os.map some ∧
      o.Joins os := by
  rw [run_output] at ho
  split at ho
  · cases ho
  rename_i hbytes
  obtain ⟨window, hwindow, rfl⟩ := Option.map_eq_some_iff.1 ho
  refine ⟨job.map.regions.map fun r =>
    Job.listing { job with map := .ofList [r] } ext state window, ?_, ?_⟩
  · rw [List.map_map]
    refine List.map_congr_left fun r _ => ?_
    have hsingle : Job.window { job with map := .ofList [r] } first last = some window := hwindow
    rw [run_output, if_neg hbytes, hsingle]
    rfl
  · have hjoins := Pass.parts_join h hm hx state window job.map.regions
      { cursor := { offset := 0 }, state := state } Output.joins_nil
    exact hjoins.fixup

theorem Job.output_isSome (h : job.cpu.Sound a longest) (ext : Extension σ) (state : σ)
    (first last : Int) :
    (job.run ext state first last).output.isSome = true ↔ 0 < job.setting.image.bytes.size ∧
      max first job.setting.image.base ≤ min last (min job.setting.image.last 0xFFFF) := by
  rw [run_isSome, Bool.and_eq_true, Bool.not_eq_true', window_isSome h.mask,
    Array.isEmpty_eq_false_iff, Array.size_pos_iff]

/-! ## Requests -/

/-- The outputs of one request after another, each run in the state in which the one before it
left the extension. -/
def Job.session (job : Job) (ext : Extension σ) : σ → List (Int × Int) → List (Option Output)
  | _, [] => []
  | state, (first, last) :: rest =>
    let report := job.run ext state first last
    report.output :: session job ext report.state rest

/-- The state in which a run starts does not show in its output. -/
theorem Job.run_output_state (h : job.cpu.Sound a longest) (hm : job.cpu.Movable) (hx : ext.Local)
    (state state' : σ) (first last : Int) :
    (job.run ext state' first last).output = (job.run ext state first last).output := by
  have hlisting : job.listing ext state' = job.listing ext state := by
    funext window
    exact listing_meets h hm hx (job.meets_map job.map)
      (List.forall₂_same.2 fun r _ => r.meets_self) state state'
  rw [run_output, run_output, hlisting]

theorem Job.session_eq_map (h : job.cpu.Sound a longest) (hm : job.cpu.Movable) (hx : ext.Local)
    (fresh state : σ) (requests : List (Int × Int)) : job.session ext state requests =
      requests.map fun (first, last) => (job.run ext fresh first last).output := by
  induction requests generalizing state with
  | nil => rfl
  | cons request requests ih =>
      obtain ⟨first, last⟩ := request
      rw [session, List.map_cons, ih, run_output_state h hm hx fresh state]

end

namespace Machine

def session (machine : Option Machine) (job : Job) (requests : List (Int × Int)) :
    List (Option Output) :=
  match machine with
  | none => job.session .absent () requests
  | some (.spectrum pages) => job.session (Spectrum.extension pages) {} requests
  | some .z88 => job.session Z88.extension () requests

/-- Every machine is an extension that is local, from some state on. -/
theorem exists_extension (machine : Option Machine) :
    ∃ (σ : Type) (ext : Extension σ) (fresh : σ), ext.Local ∧
      (∀ job first last,
        (run machine job first last).1 = (job.run ext fresh first last).output) ∧
      ∀ job requests, session machine job requests = job.session ext fresh requests := by
  match machine with
  | none => exact ⟨_, _, _, Extension.absent_local, fun _ _ _ => rfl, fun _ _ => rfl⟩
  | some (.spectrum pages) =>
      exact ⟨_, _, _, Spectrum.extension_local pages, fun _ _ _ => rfl, fun _ _ => rfl⟩
  | some .z88 => exact ⟨_, _, _, Z88.extension_local, fun _ _ _ => rfl, fun _ _ => rfl⟩

/-- Under any conventions there is an output exactly if the range meets an image that is not
empty, whatever the map. It then joins the outputs of runs over the regions of the map alone, each
with the machine fresh: its items, flags apart, are theirs one region after another; a label is in
it if it is in one of them, and refers to what it refers to in each of them, in the same order. -/
theorem run_joins_regions (q : Processor) (machine : Option Machine) (map : MemoryMap)
    (s : Setting) (first last : Int) :
    let output (m : MemoryMap) := (run machine ⟨q.instructionSet, m, s⟩ first last).1
    ((output map).isSome = true ↔ 0 < s.image.bytes.size ∧
        max first s.image.base ≤ min last (min s.image.last 0xFFFF)) ∧
      ∀ o, output map = some o → ∃ os : List Output,
        map.regions.map (fun r => output (.ofList [r])) = os.map some ∧ o.Joins os := by
  intro output
  obtain ⟨σ, ext, fresh, hx, hrun, -⟩ := exists_extension machine
  have houtput (m : MemoryMap) :
      output m = (Job.run ⟨q.instructionSet, m, s⟩ ext fresh first last).output := hrun _ _ _
  constructor
  · rw [houtput]
    exact Job.output_isSome q.sound ext fresh first last
  · intro o ho
    rw [houtput] at ho
    simp only [houtput]
    have hsound : (Job.mk q.instructionSet map s).cpu.Sound q.alphabet q.longest := q.sound
    exact Job.run_joins hsound q.movable hx fresh first last ho

/-- The first region stops before the number that its calculator operation asks for; the second
one starts with a jump all the same. -/
theorem run_joins_regions_pending_number :
    let s : Setting := { image := { bytes := #[0xEF, 0x34, 0xC3, 0x34, 0x12] } }
    let map := MemoryMap.ofList [.span 0 1 .code, .span 2 4 .code]
    let output (m : MemoryMap) :=
      (run (some (.spectrum .spectrum48)) ⟨Processor.z80.instructionSet, m, s⟩ 0 0xFFFF).1
    ∃ o o₁ o₂, output map = some o ∧ output (.ofList [.span 0 1 .code]) = some o₁ ∧
      output (.ofList [.span 2 4 .code]) = some o₂ ∧
      o.lines.map (·.opcodes) = [[0xEF], [0x34], [0xC3, 0x34, 0x12]] ∧ o.Joins [o₁, o₂] := by
  intro s map output
  have hopcodes : (output map).map (·.lines.map (·.opcodes)) =
      some [[0xEF], [0x34], [0xC3, 0x34, 0x12]] := by decide +kernel
  obtain ⟨o, ho, hopcodes⟩ := Option.map_eq_some_iff.1 hopcodes
  have hregions : map.regions = [.span 0 1 .code, .span 2 4 .code] := by decide
  have hjoins : ∃ os : List Output,
      map.regions.map (fun r => output (.ofList [r])) = os.map some ∧ o.Joins os :=
    (run_joins_regions .z80 (some (.spectrum .spectrum48)) map s 0 0xFFFF).2 o ho
  rw [hregions] at hjoins
  clear_value output
  obtain ⟨os, hos, hjoins⟩ := hjoins
  obtain ⟨o₁, rest, rfl, h₁, hrest⟩ := List.map_eq_cons_iff.1 hos.symm
  obtain ⟨o₂, rest, rfl, h₂, hnil⟩ := List.map_eq_cons_iff.1 hrest
  obtain rfl := List.map_eq_nil_iff.1 hnil
  exact ⟨o, o₁, o₂, ho, h₁.symm, h₂.symm, hopcodes, hjoins⟩

/-- Whatever was requested before, in or out of the image, a request is answered as if it were
the first one. -/
theorem session_forgets (q : Processor) (machine : Option Machine) (map : MemoryMap)
    (s : Setting) (requests : List (Int × Int)) :
    session machine ⟨q.instructionSet, map, s⟩ requests = requests.map fun (first, last) =>
      (run machine ⟨q.instructionSet, map, s⟩ first last).1 := by
  obtain ⟨σ, ext, fresh, hx, hrun, hsession⟩ := exists_extension machine
  rw [hsession, Job.session_eq_map q.sound q.movable hx fresh fresh]
  simp only [hrun]

end Machine

end RomListing

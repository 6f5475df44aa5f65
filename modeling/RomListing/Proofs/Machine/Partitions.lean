import RomListing.Proofs.Machine.Rows
import RomListing.Proofs.Pass.Everywhere
import RomListing.Proofs.Spectrum.Partitions

/-! # The partitions of what is listed

An item names the partition of its address, unless the conventions of a Spectrum ROM list it
themselves: payloads and custom regions carry no partition. Calls of the Z88 carry theirs.
-/

namespace RomListing

theorem Z88.IsCall.namesPartition {s : Setting} {c : Cursor} {item : Item}
    (h : IsCall s c item) : item.NamesPartition s := by
  obtain ⟨opcodes, lead, -, more, continuation, rfl⟩ := h
  exact Item.namesPartition_of_shown rfl rfl

namespace Machine

section

variable {σ : Type} {job : Job} {ext : Extension σ} {q : Processor}

/-- If an extension names the partitions of what it lists, then those of all items are named. -/
theorem everywhere_namesPartition (hcpu : job.cpu = q.instructionSet)
    (hbefore : ∀ c st, ∀ item ∈ (ext.before job.setting c st).items,
      item.NamesPartition job.setting)
    (hcustom : ∀ r c st, ∀ item ∈ (ext.custom job.setting r c st).items,
      item.NamesPartition job.setting) :
    job.Everywhere ext (·.NamesPartition job.setting) fun _ => True where
  plain h := h
  instruction c _ := hcpu ▸ q.sound.decode_namesPartition c _
  references _ _ _ := trivial
  data hk := hcpu ▸ q.sound.lines_namePartitions hk
  before c st := .of_items (hbefore c st)
  custom r c st := .of_items (hcustom r c st)

end

/-- What stands at the place is listed by the conventions of a Spectrum ROM: it is in a part, and
there in a custom region or in a payload. -/
def ListsPayload (machine : Option Machine) (q : Processor) (s : Setting) (parts : List Region)
    (place : Int) : Prop :=
  ∃ pages, machine = some (.spectrum pages) ∧
    ∃ r ∈ parts, r.first ≤ place ∧ place ≤ r.last ∧ Spectrum.InPayload s q pages r place

theorem listsPayload_iff (pages : Spectrum.Pages) (q : Processor) {job : Job} {window r : Region}
    (hr : r ∈ job.parts window) {place : Int} (hfirst : r.first ≤ place) (hlast : place ≤ r.last) :
    ListsPayload (some (.spectrum pages)) q job.setting (job.parts window) place ↔
      Spectrum.InPayload job.setting q pages r place := by
  refine ⟨?_, fun h => ⟨pages, rfl, r, hr, hfirst, hlast, h⟩⟩
  rintro ⟨pages', hpages, r', hr', hfirst', hlast', h⟩
  obtain rfl := spectrum.inj (Option.some.inj hpages)
  -- parts do not overlap
  have hsame : r = r' := Job.part_unique hr hr' (a := place.toNat)
    (Region.mem_def.2 (by omega)) (Region.mem_def.2 (by omega))
  exact hsame ▸ h

/-- Every item of a run names the partition of the place it stands at, be it an instruction, a line
of data or of a gap, or a call of the Z88, except for what the conventions of a Spectrum ROM list
in payloads and custom regions: this names none. -/
theorem run_names_partitions (q : Processor) (machine : Option Machine) (map : MemoryMap)
    (s : Setting) (first last : Int) (hbase : 0 ≤ s.image.base) {o : Output}
    (ho : (run machine ⟨q.instructionSet, map, s⟩ first last).1 = some o) :
    ∃ window, Job.window ⟨q.instructionSet, map, s⟩ first last = some window ∧
      ∀ item ∈ o.items.toList,
        let listed := ListsPayload machine q s (Job.parts ⟨q.instructionSet, map, s⟩ window)
          (s.place item)
        (listed → item.partition = none) ∧
        (¬listed → item.partition = s.options.partitionAt (s.place item)) := by
  let job : Job := ⟨q.instructionSet, map, s⟩
  rw [run_output] at ho
  have houtput := ho
  rw [Job.run_output] at houtput
  split at houtput
  · cases houtput
  obtain ⟨window, hwindow, hlisting⟩ := Option.map_eq_some_iff.1 houtput
  refine ⟨window, hwindow, fun item hi => ?_⟩
  have hline : item.plain ∈ o.lines := List.mem_map_of_mem hi
  have hnames (h : job.Everywhere (extension machine) (·.NamesPartition s) fun _ => True) :
      item.partition = s.options.partitionAt (s.place item) :=
    (h.run ho).lines item.plain hline
  match machine with
  | none =>
      have hnone : job.Everywhere .absent (·.NamesPartition s) fun _ => True :=
        everywhere_namesPartition rfl (fun _ _ => List.forall_mem_nil _)
          fun _ _ _ => List.forall_mem_nil _
      exact ⟨fun ⟨_, hpages, _⟩ => absurd hpages nofun, fun _ => hnames hnone⟩
  | some .z88 =>
      have hcalls : job.Everywhere Z88.extension (·.NamesPartition s) fun _ => True :=
        everywhere_namesPartition rfl
          (fun _ st item hi => (Z88.isCall_before st item hi).namesPartition)
          fun _ _ _ => List.forall_mem_nil _
      exact ⟨fun ⟨_, hpages, _⟩ => absurd hpages nofun, fun _ => hnames hcalls⟩
  | some (.spectrum pages) =>
      have hfit := Job.parts_fit q.sound.mask hbase hwindow
      have hlines : o.lines = (job.parts window).flatMap (Spectrum.lines q pages s) := by
        rw [← hlisting]
        exact (Output.lines_fixup _).trans (Spectrum.parts_lines rfl hfit _)
      rw [hlines] at hline
      obtain ⟨r, hr, hitem⟩ := List.mem_flatMap.1 hline
      have hplaced := Spectrum.lines_placed hbase (hfit r hr).1 (hfit r hr).2 _ hitem
      have hiff := listsPayload_iff pages q hr hplaced.low hplaced.last
      exact ⟨fun h => hplaced.unnamed (hiff.1 h), fun h => hplaced.named (mt hiff.2 h)⟩

/-- The instruction that reports an error names its partition, and the error code after it, which
the conventions list as a payload, does not. -/
theorem run_names_partitions_error_code :
    let r0 := Text.ofString "R0"
    let s : Setting :=
      { image := { bytes := #[0xCF, 0x0B] }, options := { partitions := some [r0] } }
    let machine : Option Machine := some (.spectrum .spectrum48)
    let job : Job := ⟨Processor.z80.instructionSet, .ofList [.span 0 1 .code], s⟩
    ∃ o window, (run machine job 0 0xFFFF).1 = some o ∧ job.window 0 0xFFFF = some window ∧
      o.items.toList.map (fun item => (s.place item, item.partition)) =
        [(0, some r0), (1, none)] ∧
      ¬ListsPayload machine .z80 s (job.parts window) 0 ∧
      ListsPayload machine .z80 s (job.parts window) 1 := by
  intro r0 s machine job
  let view (item : Item) : Int × Option Text := (s.place item, item.partition)
  have hview : (run machine job 0 0xFFFF).1.map (·.items.toList.map view) =
      some [(0, some r0), (1, none)] := by decide +kernel
  have hnamed : s.options.partitionAt 1 = some r0 := by decide
  obtain ⟨o, ho, hitems⟩ := Option.map_eq_some_iff.1 hview
  obtain ⟨window, hwindow, hnames⟩ :=
    run_names_partitions .z80 machine (.ofList [.span 0 1 .code]) s 0 0xFFFF (by decide) ho
  have hmem {x : Int × Option Text} (hx : x ∈ [((0 : Int), some r0), (1, none)]) :
      ∃ item ∈ o.items.toList, view item = x := List.mem_map.1 (hitems ▸ hx)
  obtain ⟨call, hcall, hcallView⟩ := hmem (x := (0, some r0)) (by simp)
  obtain ⟨code, hcode, hcodeView⟩ := hmem (x := (1, none)) (by simp)
  obtain ⟨hcallPlace, hcallName⟩ := Prod.mk.inj hcallView
  obtain ⟨hcodePlace, hcodeName⟩ := Prod.mk.inj hcodeView
  have hcallNames := hnames call hcall
  have hcodeNames := hnames code hcode
  rw [hcallPlace, hcallName] at hcallNames
  rw [hcodePlace, hcodeName, hnamed] at hcodeNames
  refine ⟨o, window, ho, hwindow, hitems, fun hlisted => ?_, ?_⟩
  · cases hcallNames.1 hlisted
  · by_contra hnot
    cases hcodeNames.2 hnot

/-- An error code is listed without the partition that it stands in. -/
theorem run_leaves_partition_out :
    let s : Setting := { image := { bytes := #[0xCF, 0x0B] },
                         options := { partitions := some [Text.ofString "R0"] } }
    let job : Job := ⟨Processor.z80.instructionSet, .ofList [.span 0 1 .code], s⟩
    ∃ o, (run (some (.spectrum .spectrum48)) job 0 0xFFFF).1 = some o ∧
      ¬∀ item ∈ o.items.toList, item.partition = s.options.partitionAt (s.place item) := by
  intro s job
  have hnames : (run (some (.spectrum .spectrum48)) job 0 0xFFFF).1.map (fun o =>
      decide (∀ item ∈ o.items.toList,
        item.partition = s.options.partitionAt (s.place item))) = some false := by decide +kernel
  obtain ⟨o, ho, hnames⟩ := Option.map_eq_some_iff.1 hnames
  exact ⟨o, ho, of_decide_eq_false hnames⟩

end Machine

end RomListing

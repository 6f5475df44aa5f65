import RomListing.Proofs.Machine.Independence
import RomListing.Proofs.Machine.Rows

/-! # The label flags of a run

The flags that a run leaves behind can be read off its items and its label table. No two parts list
items at one address, and no two steps do, so that an item that was flagged in the course of the
pass is still the last one at its address when the pass ends.
-/

namespace RomListing.Machine

/-- Under any conventions an output is there whenever the range meets an image that is not empty,
and its flags are exact: an item of whatever kind is flagged if and only if its address has a label
and no item after it stands at the address. So a label whose address has an item flags exactly one,
and no item is flagged without a label. -/
theorem run_flags_labelled (q : Processor) (machine : Option Machine) (map : MemoryMap)
    (s : Setting) (first last : Int) (hbase : 0 ≤ s.image.base) :
    let output := (run machine ⟨q.instructionSet, map, s⟩ first last).1
    (output.isSome = true ↔ 0 < s.image.bytes.size ∧
        max first s.image.base ≤ min last (min s.image.last 0xFFFF)) ∧
      ∀ o, output = some o →
        (∀ before item after, o.items.toList = before ++ item :: after →
          (item.hasLabel = true ↔ o.hasLabelAt item.address = true ∧
            ∀ later ∈ after, later.address ≠ item.address)) ∧
        ∀ a, o.hasLabelAt a = true → (∃ item ∈ o.items.toList, item.address = a) →
          o.items.toList.countP (·.flaggedAt a) = 1 := by
  intro output
  let job : Job := ⟨q.instructionSet, map, s⟩
  have houtput : output = (job.run (extension machine) (fresh machine) first last).output :=
    run_output machine job first last
  rw [houtput]
  refine ⟨Job.output_isSome q.sound (extension machine) (fresh machine) first last, ?_⟩
  intro o ho
  have hsound : job.cpu.Sound q.alphabet q.longest := q.sound
  have hflagged : o.Flagged :=
    (Job.run_sheet hsound (q.namesLabels s) (extension_orderly machine) hbase ho).1
  exact ⟨hflagged, fun a ha hsome => hflagged.flags_one ha hsome⟩

/-- Jumps to a byte line and to a gap that are listed later flag both. -/
theorem run_flags_labelled_forward :
    let s : Setting :=
      { image := { bytes := #[0xC3, 0x06, 0x00, 0xC3, 0x07, 0x00, 0x41, 0x00] } }
    let map := MemoryMap.ofList [.span 0 5 .code, .span 6 6 .bytes, .span 7 7 .gap]
    ∃ o, (run (some .z88) ⟨Processor.z80.instructionSet, map, s⟩ 0 0xFFFF).1 = some o ∧
      o.items.toList.map (fun item => (item.address, item.hasLabel)) =
        [(0, false), (3, false), (6, true), (7, true)] ∧
      o.items.toList.countP (·.flaggedAt 7) = 1 := by
  intro s map
  have hitems : (run (some .z88) ⟨Processor.z80.instructionSet, map, s⟩ 0 0xFFFF).1.map
      (fun o => (o.items.toList.map fun item => (item.address, item.hasLabel), o.hasLabelAt 7)) =
        some ([(0, false), (3, false), (6, true), (7, true)], true) := by decide +kernel
  obtain ⟨o, ho, hitems⟩ := Option.map_eq_some_iff.1 hitems
  obtain ⟨hitems, hlabel⟩ := Prod.mk.inj hitems
  refine ⟨o, ho, hitems, ?_⟩
  refine ((run_flags_labelled .z80 (some .z88) map s 0 0xFFFF (by decide)).2 o ho).2 7 hlabel ?_
  have hmem : (7, true) ∈ o.items.toList.map fun item => (item.address, item.hasLabel) := by
    rw [hitems]
    decide
  obtain ⟨item, hi, heq⟩ := List.mem_map.1 hmem
  exact ⟨item, hi, congrArg Prod.fst heq⟩

end RomListing.Machine

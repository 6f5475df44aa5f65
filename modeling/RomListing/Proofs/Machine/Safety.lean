import RomListing.Proofs.Checked.Pass
import RomListing.Proofs.Checked.Processors
import RomListing.Proofs.Machine.Independence
import RomListing.Proofs.Pass.AddressSpace

/-! # Runs are safe

The defaults of the definitions are never used, under any processor and any conventions, whatever
image, offset, options, map and range are given: the checked run finds every position, every key
and every number that it asks for. What a run gives stays in the address space.
-/

namespace RomListing.Machine

/-- A run that checks every access ends with the report of the run. It has an output whenever the
range meets an image that is not empty, and all addresses in the output are addresses of the 64K:
those of its items and labels, and those that refer to labels. Opcodes are bytes. -/
theorem run_safe (q : Processor) (machine : Option Machine) (map : MemoryMap) (s : Setting)
    (state : State machine) (first last : Int) :
    let job : Job := ⟨q.instructionSet, map, s⟩
    let report := job.run (extension machine) state first last
    job.checkedRun (extension machine) q.twin (twin machine) state first last = .ok report ∧
      (report.output.isSome = true ↔ 0 < s.image.bytes.size ∧
        max first s.image.base ≤ min last (min s.image.last 0xFFFF)) ∧
      ∀ o, report.output = some o →
        (∀ item ∈ o.items, IsAddress item.address ∧ ∀ b ∈ item.opcodes, b.toNat ≤ 0xFF) ∧
        ∀ l ∈ o.labels, IsAddress l.address ∧ ∀ a ∈ l.references, IsAddress a := by
  intro job report
  have hsound : job.cpu.Sound q.alphabet q.longest := q.sound
  refine ⟨job.checkedRun_eq q.twin (twin machine) state first last,
    Job.output_isSome q.sound (extension machine) state first last, fun o ho => ?_⟩
  have hspace : o.InSpace :=
    Job.run_inSpace hsound (q.expand_inSpace s) (extension_inSpace machine) ho
  refine ⟨fun item hi => ⟨hspace.items item hi, fun b _ => ?_⟩, hspace.labels⟩
  exact Nat.le_of_lt_succ b.toNat_lt

/-- A call of the calculator at the last address, with a jump that leads back over address 0 and a
number that the end of the image cuts off. Only one partition has a name. -/
theorem run_safe_cut_number :
    let s : Setting :=
      { image := { bytes := #[0xEF, 0x00, 0x80, 0x34, 0x40] }
        addressOffset := -1
        options := { romPage := some 0, partitions := some ["low"] } }
    let machine : Option Machine := some (.spectrum .spectrum48)
    let job : Job := ⟨Processor.z80.instructionSet, .ofList [.span 0 0xFFFF .code], s⟩
    let report := job.run (extension machine) (fresh machine) 0 0xFFFF
    job.checkedRun (extension machine) Processor.z80.twin (twin machine) (fresh machine) 0 0xFFFF =
        .ok report ∧
      (report.output.isSome = true ↔ 0 < s.image.bytes.size ∧
        max 0 s.image.base ≤ min 0xFFFF (min s.image.last 0xFFFF)) ∧
      ∃ o item l, report.output = some o ∧ item ∈ o.items ∧ 0x40 ∈ item.opcodes ∧
        l ∈ o.labels ∧ 0 ∈ l.references ∧ IsAddress item.address ∧
        (0x40 : UInt8).toNat ≤ 0xFF ∧ IsAddress l.address ∧ IsAddress 0 := by
  intro s machine job report
  obtain ⟨hchecked, hsome, hinside⟩ := run_safe .z80 machine (.ofList [.span 0 0xFFFF .code]) s
    (fresh machine) 0 0xFFFF
  refine ⟨hchecked, hsome, ?_⟩
  have hshown : report.output.map (fun o =>
      (o.items.toList.map fun item => (item.address, item.opcodes), o.labels)) =
        some ([(0xFFFF, [0xEF]), (0, [0x00, 0x80]), (2, [0x34]), (3, [0x40, 0, 0, 0])],
          [⟨0xFF81, [0]⟩]) := by decide +kernel
  obtain ⟨o, ho, hshown⟩ := Option.map_eq_some_iff.1 hshown
  obtain ⟨hitems, hlabels⟩ := Prod.mk.inj hshown
  have hnumber : (3, [0x40, 0, 0, 0]) ∈
      o.items.toList.map fun item => (item.address, item.opcodes) := by
    rw [hitems]
    decide
  obtain ⟨item, hi, heq⟩ := List.mem_map.1 hnumber
  have hmem : item ∈ o.items := Array.mem_toList_iff.1 hi
  have hcode : 0x40 ∈ item.opcodes := by
    rw [(Prod.mk.inj heq).2]
    decide
  have hlabel : ⟨0xFF81, [0]⟩ ∈ o.labels := by
    rw [hlabels]
    decide
  obtain ⟨hitem, hl⟩ := hinside o ho
  obtain ⟨haddress, hbyte⟩ := hitem item hmem
  obtain ⟨htarget, hsources⟩ := hl ⟨0xFF81, [0]⟩ hlabel
  exact ⟨o, item, ⟨0xFF81, [0]⟩, ho, hmem, hcode, hlabel, List.mem_singleton_self 0, haddress,
    hbyte 0x40 hcode, htarget, hsources 0 (List.mem_singleton_self 0)⟩

end RomListing.Machine

import RomListing.Proofs.Listing.Legible
import RomListing.Proofs.Pass.AddressSpace
import RomListing.Proofs.Project.LabelLines

/-! # A project's listing loses no byte

The lines of a listing that shows bytes are enough to find the address and the bytes of every item,
in order, whatever the items are and whatever is remarked about them.
-/

namespace RomListing.Project

variable {p : Project} {bytes : Array UInt8}

/-- Every item of a listing stands in the address space and has a legible text. -/
theorem listing_legible {o : Output} (ho : p.listing? bytes = some o) :
    ∀ item ∈ o.items.toList, IsAddress item.address ∧ item.text.Legible := by
  obtain ⟨q, machine, -, -, o', hrun, rfl⟩ := listing?_eq_some_iff.1 ho
  rw [Machine.run_output] at hrun
  have hsound : (p.job q.instructionSet bytes).cpu.Sound q.alphabet q.longest := q.sound
  have hspace : o'.InSpace := Job.run_inSpace hsound (q.expand_inSpace _)
    (Machine.extension_inSpace machine) hrun
  have hlegible : o'.All (·.text.Legible) fun _ => True :=
    (Machine.everywhere_legible machine q rfl).run hrun
  intro item hi
  obtain ⟨old, hold, heq⟩ := p.exists_bare_eq o' hi
  have haddress : old.address = item.address := (congrArg Item.address heq :)
  have htext : old.text = item.text := (congrArg Item.text heq :)
  rw [← haddress, ← htext]
  exact ⟨hspace.items old (Array.mem_toList_iff.1 hold),
    hlegible.lines old.plain (List.mem_map_of_mem hold)⟩

/-- The lines of a listing that shows bytes, in whatever form it writes labels, are read back as the
addresses and the bytes of all items. -/
theorem listing_reads_back (options : Options) {o : Output} (ho : p.listing? bytes = some o) :
    Listing.read ((Listing.ofOptions options true).lines o) =
      o.items.toList.map fun item => (item.address, item.opcodes) :=
  Listing.read_lines (fun item hi => (listing_legible ho item hi).1)
    fun item hi => (listing_legible ho item hi).2

/-- A call with a text after it, and an instruction that the end of the image cuts off. -/
theorem listing_reads_back_text :
    let p : Project := { machine := some (Text.ofString "Z88") }
    ∃ o, p.listing? #[0xE7, 0x93, 0x41, 0x42, 0x20, 0x43, 0x00, 0x3E] = some o ∧
      Listing.read ((Listing.ofOptions {} true).lines o) =
        [(0, [0xE7, 0x93]), (0, [0x41, 0x42, 0x20, 0x43, 0x00]), (7, [0x3E])] := by
  intro p
  have hitems : (p.listing? #[0xE7, 0x93, 0x41, 0x42, 0x20, 0x43, 0x00, 0x3E]).map
      (·.items.toList.map fun item => (item.address, item.opcodes)) =
        some [(0, [0xE7, 0x93]), (0, [0x41, 0x42, 0x20, 0x43, 0x00]), (7, [0x3E])] := by
    decide +kernel
  obtain ⟨o, ho, hitems⟩ := Option.map_eq_some_iff.1 hitems
  exact ⟨o, ho, (listing_reads_back {} ho).trans hitems⟩

end RomListing.Project

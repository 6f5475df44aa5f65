import RomListing.Proofs.Pass.Lines
import RomListing.Proofs.Processor

/-! # The label table of a pass

The table that a pass leaves behind can be read off its items: a label for every symbol that
an item names, with the addresses of the items that name it.
-/

namespace RomListing

def Item.Names (item : Item) (address : Int) : Prop :=
  item.hasLabelSymbol = true ∧ item.symbolValue = some address

instance (item : Item) (address : Int) : Decidable (item.Names address) :=
  inferInstanceAs (Decidable (_ ∧ _))

theorem Item.mem_uses {item : Item} {r : Reference} :
    r ∈ item.uses ↔ item.Names r.target ∧ r.source = item.address := by
  obtain ⟨target, source⟩ := r
  unfold uses Names
  by_cases h : item.hasLabelSymbol
  · rw [if_pos h, List.mem_map]
    cases item.symbolValue <;> simp [h, eq_comm]
  · simp [h]

theorem Item.mem_targets (items : List Item) (a : Int) :
    a ∈ (items.flatMap Item.uses).map Reference.target ↔ ∃ item ∈ items, item.Names a := by
  simp only [List.mem_map, List.mem_flatMap]
  constructor
  · rintro ⟨r, ⟨item, hi, hr⟩, rfl⟩
    exact ⟨item, hi, (Item.mem_uses.1 hr).1⟩
  · rintro ⟨item, hi, hn⟩
    exact ⟨⟨a, item.address⟩, ⟨item, hi, Item.mem_uses.2 ⟨hn, rfl⟩⟩, rfl⟩

/-- An item refers to an address once if it names it, and else never. -/
theorem Item.sources_uses (item : Item) (a : Int) :
    (item.uses.filter (·.target == a)).map Reference.source =
      if item.Names a then [item.address] else [] := by
  by_cases h : item.Names a
  · rw [if_pos h, Item.uses, if_pos h.1, h.2]
    simp
  · rw [if_neg h, List.map_eq_nil_iff, List.filter_eq_nil_iff]
    intro r hr ha
    exact h (eq_of_beq ha ▸ (Item.mem_uses.1 hr).1)

theorem Item.sources (items : List Item) (a : Int) :
    ((items.flatMap Item.uses).filter (·.target == a)).map Reference.source =
      (items.filter (·.Names a)).map Item.address := by
  induction items with
  | nil => rfl
  | cons item items ih =>
      rw [List.flatMap_cons, List.filter_append, List.map_append, ih, Item.sources_uses]
      by_cases h : item.Names a <;> simp [h]

/-- The label table is the cross-reference of the items as they are shown, too. -/
theorem Output.crossReferenced_iff (o : Output) :
    o.CrossReferenced ↔ Tabulates (o.items.toList.flatMap Item.uses) o.labels := by
  unfold CrossReferenced lines
  rw [List.flatMap_map]
  rfl

namespace Job

theorem window_isSome {job : Job} (hmask : job.cpu.addressMask = 0xFFFF) (first last : Int) :
    (job.window first last).isSome = true ↔
      max first job.setting.image.base ≤ min last (min job.setting.image.last 0xFFFF) := by
  unfold window
  rw [hmask]
  dsimp only
  split
  · simp only [Option.isSome_none, Bool.false_eq_true, false_iff]
    omega
  · simp only [Option.isSome_some, true_iff]
    omega

theorem run_output_none {σ : Type} (job : Job) (hmask : job.cpu.addressMask = 0xFFFF)
    (ext : Extension σ) (state : σ) {first last : Int}
    (hrange : ¬max first job.setting.image.base ≤ min last (min job.setting.image.last 0xFFFF)) :
    (job.run ext state first last).output = none := by
  have hwindow : job.window first last = none := by
    rw [← Option.not_isSome_iff_eq_none, window_isSome hmask]
    exact hrange
  rw [run_output, hwindow, Option.map_none, ite_self]

/-- A pass without an extension gives an output exactly if the range meets an image that is not
empty. Its label table then is the cross-reference of the items, cut short or not: there is one
label for every symbol value of an item that names a label, such items have a symbol value, and
the references of a label are the addresses of the items that name it, in the order of the items
and as often as they stand there. -/
theorem run_labels_cross_reference (q : Processor) (map : MemoryMap) (s : Setting)
    (first last : Int) :
    let output := ((Job.mk q.instructionSet map s).run .absent () first last).output
    (output.isSome = true ↔ 0 < s.image.bytes.size ∧
        max first s.image.base ≤ min last (min s.image.last 0xFFFF)) ∧
      ∀ o, output = some o →
        (∀ a, o.hasLabelAt a = true ↔ ∃ i ∈ o.items.toList, i.Names a) ∧
        (∀ i ∈ o.items.toList, i.hasLabelSymbol = true → i.symbolValue.isSome = true) ∧
        (o.labels.map Label.address).Nodup ∧
        ∀ l ∈ o.labels,
          l.references = (o.items.toList.filter (·.Names l.address)).map Item.address := by
  intro output
  constructor
  · have hsome : output.isSome = true ↔ s.image.bytes.isEmpty = false ∧
        ((Job.mk q.instructionSet map s).window first last).isSome = true := by
      rw [run_isSome, Bool.and_eq_true, Bool.not_eq_true']
    rw [hsome, window_isSome q.sound.mask, Array.isEmpty_eq_false_iff, Array.size_pos_iff]
  intro o ho
  obtain ⟨window, -, hextends⟩ := run_extends q.sound ho
  have htable := o.crossReferenced_iff.1 (hextends.crossReferenced Output.crossReferenced_empty)
  refine ⟨?_, ?_, htable.once, ?_⟩
  · intro a
    have hmem : o.hasLabelAt a = true ↔ a ∈ o.labels.map Label.address := by
      simp [Output.hasLabelAt]
    rw [hmem, htable.targets, Item.mem_targets]
  · intro i hi hlabel
    have hplain : i.plain ∈ o.lines := List.mem_map_of_mem hi
    rw [hextends.lines, List.mem_append] at hplain
    obtain ⟨r, -, hr⟩ := List.mem_flatMap.1 (hplain.resolve_left nofun)
    have hsymbol := q.sound.lines_symbol hr
    exact hsymbol hlabel
  · intro l hl
    rw [htable.sources l hl, Item.sources]

/-- A jump that the end of the image cuts short names 52, and so does the one before it. -/
theorem run_labels_cross_reference_cut_jump :
    let s : Setting := { image := { bytes := #[0xC3, 0x34, 0x00, 0xC3, 0x34] } }
    let map := MemoryMap.ofList [.span 0 4 .code]
    ∃ o, ((Job.mk Processor.z80.instructionSet map s).run .absent () 0 0xFFFF).output = some o ∧
      o.labels = [⟨0x34, [0, 3]⟩] ∧
      ∀ a, o.hasLabelAt a = true ↔ ∃ i ∈ o.items.toList, i.Names a := by
  intro s map
  have hlabels : ((Job.mk Processor.z80.instructionSet map s).run .absent () 0 0xFFFF).output.map
      Output.labels = some [⟨0x34, [0, 3]⟩] := by decide +kernel
  obtain ⟨o, ho, hlabels⟩ := Option.map_eq_some_iff.1 hlabels
  exact ⟨o, ho, hlabels, ((run_labels_cross_reference .z80 map s 0 0xFFFF).2 o ho).1⟩

end Job

end RomListing

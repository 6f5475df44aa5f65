import RomListing.Proofs.Listing.Labels
import RomListing.Proofs.Machine.Independence
import RomListing.Proofs.Machine.Rows
import RomListing.Proofs.Project.WholeImage

/-! # A project's listing defines the labels that it uses

Operands are named while an instruction is read, and label lines are written when all is over. The
two agree: the token of an operand that uses a label is the name that the listing defines.
-/

namespace RomListing.Project

variable {p : Project} {bytes : Array UInt8}

theorem exists_processor {cpu : InstructionSet} (h : p.processor = .ok cpu) :
    ∃ q : Processor, cpu = q.instructionSet := by
  unfold processor at h
  split at h
  · rename_i found hfound
    cases h
    obtain ⟨entry, hentry, rfl⟩ := Option.map_eq_some_iff.1 hfound
    have hmem := List.mem_of_find?_eq_some hentry
    simp only [processors, List.mem_cons, List.not_mem_nil, or_false] at hmem
    rcases hmem with rfl | rfl | rfl
    · exact ⟨.z80, rfl⟩
    · exact ⟨.mos6502, rfl⟩
    · exact ⟨.mos6502, rfl⟩
  · cases h

/-- There is a listing exactly if what the project names is known and the machine lists the job. -/
theorem listing?_eq_some_iff {o : Output} :
    p.listing? bytes = some o ↔ ∃ q machine, p.processor = .ok (Processor.instructionSet q) ∧
      p.namedMachine = .ok machine ∧ ∃ o',
        (Machine.run machine (p.job q.instructionSet bytes) p.first p.last).1 = some o' ∧
          p.applyComments o' = o := by
  constructor
  · intro h
    cases hq : p.processor with
    | error e => simp [listing?, run, hq, bind, Except.bind, Except.toOption] at h
    | ok cpu =>
        obtain ⟨q, rfl⟩ := exists_processor hq
        cases hm : p.namedMachine with
        | error e => simp [listing?, run, hq, hm, bind, Except.bind, Except.toOption] at h
        | ok machine =>
            rw [listing?_of_setup hq hm] at h
            exact ⟨q, machine, rfl, rfl, Option.map_eq_some_iff.1 h⟩
  · rintro ⟨q, machine, hq, hm, o', ho', rfl⟩
    rw [listing?_of_setup hq hm, ho', Option.map_some]

def setting (p : Project) (bytes : Array UInt8) : Setting :=
  ⟨⟨bytes, p.base⟩, p.addressOffset, p.options⟩

theorem listing?_isSome {q : Processor} {machine : Option Machine}
    (hq : p.processor = .ok q.instructionSet) (hm : p.namedMachine = .ok machine) :
    (p.listing? bytes).isSome = true ↔ 0 < bytes.size ∧
      max p.first p.base ≤ min p.last (min (p.base + bytes.size - 1) 0xFFFF) := by
  rw [listing?_of_setup hq hm, Option.isSome_map, Machine.run_output]
  have hsound : (p.job q.instructionSet bytes).cpu.Sound q.alphabet q.longest := q.sound
  exact Job.output_isSome hsound _ _ p.first p.last

/-- The item without what comes to it when all is listed: its label flag and its remark. -/
def bare (item : Item) : Item := { item.plain with comment := none }

theorem exists_bare_eq (p : Project) (o : Output) {item : Item}
    (hi : item ∈ (p.applyComments o).items.toList) :
    ∃ old ∈ o.items.toList, bare old = bare item := by
  have hbare : (p.applyComments o).items.toList.map bare = o.items.toList.map bare :=
    p.map_applyComments (fun _ _ => rfl) o
  exact List.mem_map.1 (hbare ▸ List.mem_map_of_mem hi)

/-- The items of a listing are in order, and those that are flagged have a label. -/
theorem listing_listed (hbase : 0 ≤ p.base) {o : Output} (ho : p.listing? bytes = some o) :
    Listed (p.setting bytes) 0 0x10000 o.items.toList ∧
      ∀ item ∈ o.items.toList, item.hasLabel = true → o.hasLabelAt item.address = true := by
  obtain ⟨q, machine, -, -, o', hrun, rfl⟩ := listing?_eq_some_iff.1 ho
  rw [Machine.run_output] at hrun
  have hsound : (p.job q.instructionSet bytes).cpu.Sound q.alphabet q.longest := q.sound
  obtain ⟨hflagged, hlisted⟩ : o'.Flagged ∧ Listed (p.setting bytes) 0 0x10000 o'.lines :=
    Job.run_sheet hsound (q.namesLabels (p.setting bytes)) (Machine.extension_orderly machine)
      hbase hrun
  constructor
  · have hbare : (p.applyComments o').items.toList.map bare = o'.items.toList.map bare :=
      p.map_applyComments (fun _ _ => rfl) o'
    have hkeeps (item : Item) : (bare item).address = item.address ∧
        (bare item).continuation = item.continuation ∧
        ((bare item).NamesLabel (p.setting bytes).options ↔
          item.NamesLabel (p.setting bytes).options) := ⟨rfl, rfl, .rfl⟩
    have hlines : o'.lines.map bare = o'.items.toList.map bare := List.map_map
    rw [← Listed.map_iff hkeeps, hbare, ← hlines]
    exact (Listed.map_iff hkeeps).2 hlisted
  · intro item hi hflag
    let view (item : Item) : Int × Bool := (item.address, item.hasLabel)
    have hview : (p.applyComments o').items.toList.map view = o'.items.toList.map view :=
      p.map_applyComments (fun _ _ => rfl) o'
    have hmem : view item ∈ o'.items.toList.map view := hview ▸ List.mem_map_of_mem hi
    obtain ⟨old, hold, heq⟩ := List.mem_map.1 hmem
    obtain ⟨haddress, hsame⟩ := Prod.mk.inj heq
    have hlabel := hflagged.labelled_of_mem hold (hsame.trans hflag)
    rw [Output.hasLabelAt_congr (p.labels_applyComments o'), ← haddress]
    exact hlabel

/-- The listing of a project, as its options have it, of whatever contents. It is there if what the
project names is known and the range meets the contents. Its lines are the lines of the items, and
before the line of every item that continues no other and whose address has a label there is the
line of that label. No label has two lines, and a label with an item at its address has one. An item
that uses a label names it in its token by the name that the listing gives it. -/
theorem listing_defines_labels (p : Project) (bytes : Array UInt8) (showBytes : Bool)
    (hbase : 0 ≤ p.base) :
    ((p.listing? bytes).isSome = true ↔ (∃ cpu, p.processor = .ok cpu) ∧
        (∃ machine, p.namedMachine = .ok machine) ∧ 0 < bytes.size ∧
        max p.first p.base ≤ min p.last (min (p.base + bytes.size - 1) 0xFFFF)) ∧
      ∀ o, p.listing? bytes = some o →
        let l := Listing.ofOptions p.options showBytes
        (l.lines o = o.items.toList.flatMap fun item =>
          (if item.continuation = false ∧ o.hasLabelAt item.address = true then
            [l.labelName item.address ++ ":"] else []) ++ [l.line item]) ∧
        (l.labelLines o).Nodup ∧
        (∀ a, o.hasLabelAt a = true → (∃ item ∈ o.items.toList, item.address = a) →
          (l.lines o).count (l.labelName a ++ ":") = 1) ∧
        ∀ item ∈ o.items.toList, item.hasLabelSymbol = true →
          ∃ v, item.symbolValue = some v ∧ item.token? = some (l.labelName v) := by
  constructor
  · constructor
    · intro hsome
      obtain ⟨o, ho⟩ := Option.isSome_iff_exists.1 hsome
      obtain ⟨q, machine, hq, hm, -⟩ := listing?_eq_some_iff.1 ho
      exact ⟨⟨_, hq⟩, ⟨_, hm⟩, (listing?_isSome hq hm).1 hsome⟩
    · rintro ⟨⟨cpu, hq⟩, ⟨machine, hm⟩, hrange⟩
      obtain ⟨q, rfl⟩ := exists_processor hq
      exact (listing?_isSome hq hm).2 hrange
  · intro o ho l
    obtain ⟨hlisted, hflags⟩ := listing_listed hbase ho
    refine ⟨?_, Listing.labelLines_nodup hlisted, ?_, ?_⟩
    · exact List.flatMap_congr fun item hi => l.itemLines_eq (hflags item hi)
    · exact fun a ha hsome => Listing.count_labelLine hlisted hflags ha hsome
    · intro item hi hsymbol
      obtain ⟨v, hvalue, hpoints⟩ := hlisted.named item hi hsymbol
      refine ⟨v, hvalue, ?_⟩
      rw [hpoints.token?, Listing.ofOptions_labelName]
      rfl

/-- The text after the call of the system stands at the address of the call: the label that the jump
uses is defined before the call alone. -/
theorem listing_defines_labels_before_text :
    let p : Project := { machine := some (Text.ofString "Z88") }
    let l := Listing.ofOptions p.options false
    ∃ o, p.listing? #[0xC3, 0x03, 0x00, 0xE7, 0x93, 0x48, 0x69, 0x00] = some o ∧
      l.lines o = ["  0000  jp L0003", "L0003:", "  0003  oz OS_POUT",
        "  0003  .defb \"Hi\", $00"].map Text.ofString ∧
      (l.lines o).count (l.labelName 3 ++ ":") = 1 := by
  intro p l
  have hlines : (p.listing? #[0xC3, 0x03, 0x00, 0xE7, 0x93, 0x48, 0x69, 0x00]).map
      (fun o => (l.lines o, o.hasLabelAt 3, o.items.toList.any (·.address == 3))) =
        some (["  0000  jp L0003", "L0003:", "  0003  oz OS_POUT",
          "  0003  .defb \"Hi\", $00"].map Text.ofString, true, true) := by decide +kernel
  obtain ⟨o, ho, hlines⟩ := Option.map_eq_some_iff.1 hlines
  obtain ⟨hlines, hmore⟩ := Prod.mk.inj hlines
  obtain ⟨hlabel, hsome⟩ := Prod.mk.inj hmore
  have hdefines := (listing_defines_labels p _ false (by decide)).2 o ho
  obtain ⟨item, hi, haddress⟩ := List.any_eq_true.1 hsome
  exact ⟨o, ho, hlines, hdefines.2.2.1 3 hlabel ⟨item, hi, eq_of_beq haddress⟩⟩

end RomListing.Project

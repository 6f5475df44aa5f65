import RomListing.Proofs.Display.Pass

/-! # The display of a run

A run with another display lists the same items and labels. Whoever reads them off the output, and
not off the text of the listing, need not know how numbers and labels are written.
-/

namespace RomListing.Machine

/-- However numbers and labels are written, under any conventions and wherever the image lies: both
runs have no output, or both have one. Then the items are as many and each is the same but for its
text, where its token is and what its remark says, and the labels have the same references in the
same order. -/
theorem run_rewords (q : Processor) (machine : Option Machine) (map : MemoryMap) (s : Setting)
    (decimal bareLabels : Bool) (first last : Int) :
    let output (s : Setting) := (run machine ⟨q.instructionSet, map, s⟩ first last).1
    (output s = none ∧ output (s.display decimal bareLabels) = none) ∨
      ∃ o o', output s = some o ∧ output (s.display decimal bareLabels) = some o' ∧
        List.Forall₂ Item.Rewords o.items.toList o'.items.toList ∧ o'.labels = o.labels := by
  intro output
  let job : Job := ⟨q.instructionSet, map, s⟩
  have hsound : job.cpu.Sound q.alphabet q.longest := q.sound
  have hreport := Job.run_display hsound q.rewordable (extension_rewordable machine) decimal
    bareLabels (fresh machine) first last
  have houtputs : (output (s.display decimal bareLabels)).map Output.outline =
      (output s).map Output.outline := by
    simp only [output, run_output]
    exact (congrArg Report.output hreport :)
  cases ho : output s with
  | none =>
      rw [ho, Option.map_none, Option.map_eq_none_iff] at houtputs
      exact .inl ⟨rfl, houtputs⟩
  | some o =>
      rw [ho, Option.map_some] at houtputs
      obtain ⟨o', ho', houtline⟩ := Option.map_eq_some_iff.1 houtputs
      obtain ⟨hitems, hlabels⟩ := Output.outline_eq_iff.1 houtline
      exact .inr ⟨o, o', rfl, ho', hitems, hlabels⟩

example :
    let s : Setting := { image := { bytes := #[0x3E, 0x10, 0xC3, 0x00, 0x00] } }
    let texts (s : Setting) :=
      (run none (.whole Processor.z80.instructionSet s) 0 0xFFFF).1.map fun o =>
        o.items.toList.map Item.text
    texts s = some [Text.ofString "ld a,$10", Text.ofString "jp L0000"] ∧
      texts (s.display true true) =
        some [Text.ofString "ld a,16", Text.ofString "jp $00000"] := by
  decide +kernel

end RomListing.Machine

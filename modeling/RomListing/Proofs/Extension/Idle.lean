import RomListing.Proofs.Extension.Reading
import RomListing.Proofs.Pass.Steps

/-! # Extensions that read nothing

An extension may take over at every step and read nothing. Each time the pass warns and reads the
instruction itself, as it does where there is no extension. The two passes go step by step: they
have the cursor, the output and the number of begun items in common, whatever the extension keeps
in its state and whatever the one pass is warned of.
-/

namespace RomListing

variable {σ : Type} {ext : Extension σ}

/-- A step that leaves the cursor where it is and lists nothing. -/
structure Step.Inert (step : Step σ) (c : Cursor) : Prop where
  cursor : step.cursor = c
  items : step.items = []
  references : step.references = []

/-- The extension reads nothing, lists nothing and remarks on nothing. It may take steps over, but
leaves custom regions to the pass. -/
structure Extension.Inert (ext : Extension σ) : Prop where
  before : ∀ s c st, (ext.before s c st).Inert c
  after : ∀ s item st, (ext.after s item st).remark = none
  custom : ∀ s r c st, (ext.custom s r c st).Inert c
  declines : ∀ s r c st, (ext.custom s r c st).handled = false

theorem Extension.absent_inert : Extension.absent.Inert where
  before _ _ _ := ⟨rfl, rfl, rfl⟩
  after _ _ _ := rfl
  custom _ _ _ _ := ⟨rfl, rfl, rfl⟩
  declines _ _ _ _ := rfl

theorem Script.extension_inert {script : Script} (hclaims : ∀ e ∈ script.claims, e.2 = 0)
    (hcustom : script.custom = false) : script.extension.Inert where
  before s c journal := by
    cases hclaim : script.claimAt s c.offset with
    | none =>
        rw [Script.before_of_none hclaim]
        exact ⟨rfl, rfl, rfl⟩
    | some n =>
        obtain ⟨b, -, hlookup⟩ := Option.bind_eq_some_iff.1 hclaim
        obtain ⟨before, after, hsplit, -⟩ := List.lookup_eq_some_iff.1 hlookup
        have hn : n = 0 := hclaims ((b.toNat : Int), n) (by simp [hsplit])
        rw [Script.before_of_some hclaim, hn]
        exact ⟨rfl, rfl, rfl⟩
  after _ _ _ := rfl
  custom s r c journal := by
    show (script.customRegion s r c journal).Inert c
    rw [Script.customRegion, hcustom]
    exact ⟨rfl, rfl, rfl⟩
  declines s r c journal := by
    show (script.customRegion s r c journal).handled = false
    rw [Script.customRegion, hcustom]
    rfl

namespace Pass

/-- What a pass and one without an extension have in common. -/
structure Abreast (p : Pass σ) (p' : Pass Unit) : Prop where
  cursor : p.cursor = p'.cursor
  output : p.output = p'.output
  started : p.started = p'.started

variable {job : Job} {p : Pass σ} {p' : Pass Unit}

theorem Abreast.note (h : p.Abreast p') (ns ns' : List Notice) : (p.note ns).Abreast (p'.note ns') :=
  ⟨h.cursor, h.output, h.started⟩

theorem Abreast.fixup (h : p.Abreast p') : p.fixup.Abreast p'.fixup :=
  ⟨h.cursor, congrArg Output.fixup h.output, h.started⟩

theorem Abreast.seek (h : p.Abreast p') (r : Region) : (p.seek r).Abreast (p'.seek r) where
  cursor := by
    unfold Pass.seek
    rw [h.cursor]
  output := h.output
  started := h.started

theorem Abreast.addLines (h : p.Abreast p') (lines : List Item) :
    (p.addLines lines).Abreast (p'.addLines lines) where
  cursor := h.cursor
  output := congrArg (·.addAll lines) h.output
  started := congrArg (· + lines.length) h.started

theorem Abreast.absorb (h : p.Abreast p') {step : Step σ} {step' : Step Unit}
    (hstep : step.Inert p.cursor) (hstep' : step'.Inert p'.cursor) :
    (p.absorb step).Abreast (p'.absorb step') where
  cursor := hstep.cursor.trans (h.cursor.trans hstep'.cursor.symm)
  output := by
    unfold Pass.absorb
    rw [hstep.items, hstep.references, hstep'.items, hstep'.references]
    exact h.output
  started := h.started

theorem Abreast.decodeStep (h : p.Abreast p') (hext : ext.Inert) :
    (p.decodeStep job ext).Abreast (p'.decodeStep job .absent) := by
  unfold Pass.decodeStep
  rw [h.cursor, h.output]
  refine ⟨rfl, ?_, h.started⟩
  dsimp only
  rw [hext.after]
  rfl

/-- The step that the extension takes over leaves the cursor, so that the instruction is read. -/
theorem Abreast.codeStep (h : p.Abreast p') (hext : ext.Inert) (ho : p.cursor.overflow = false) :
    (p.codeStep job ext).Abreast (p'.codeStep job .absent) := by
  have hstep := hext.before job.setting p.cursor p.state
  have hbegun : Abreast { p with started := p.started + 1 } { p' with started := p'.started + 1 } :=
    ⟨h.cursor, h.output, congrArg (· + 1) h.started⟩
  have habsorbed := hbegun.absorb hstep
    (Extension.absent_inert.before job.setting p'.cursor p'.state)
  have hplain : p'.codeStep job .absent =
      ({ p' with started := p'.started + 1 }.absorb
        (Extension.absent.before job.setting p'.cursor p'.state)).decodeStep job .absent :=
    codeStep_declines rfl
  rw [hplain]
  cases hhandled : (ext.before job.setting p.cursor p.state).handled with
  | false =>
      rw [codeStep_declines hhandled]
      exact habsorbed.decodeStep hext
  | true =>
      have hstalls : (ext.before job.setting p.cursor p.state).cursor.offset = p.cursor.offset ∧
          (ext.before job.setting p.cursor p.state).cursor.overflow = false := by
        rw [hstep.cursor]
        exact ⟨rfl, ho⟩
      rw [codeStep_stalls hhandled hstalls]
      exact (habsorbed.note [.idle p.cursor.offset] []).decodeStep hext

theorem Abreast.codeLoop (h : p.Abreast p') (hext : ext.Inert) (last : Int) (fuel : Nat) :
    (codeLoop job ext last fuel p).Abreast (codeLoop job .absent last fuel p') := by
  induction fuel generalizing p p' with
  | zero => exact h
  | succ fuel ih =>
      unfold Pass.codeLoop
      rw [← h.cursor]
      by_cases hgoes : p.cursor.offset ≤ last ∧ p.cursor.overflow = false
      · rw [if_pos hgoes, if_pos hgoes]
        exact ih (h.codeStep hext hgoes.2)
      · rw [if_neg hgoes, if_neg hgoes]
        exact h

theorem Abreast.codePart (h : p.Abreast p') (hext : ext.Inert) (r : Region) :
    (p.codePart job ext r).Abreast (p'.codePart job .absent r) := by
  have hentered : Abreast { p with state := (ext.enter r p.state).1 } p' :=
    ⟨h.cursor, h.output, h.started⟩
  exact (((hentered.note (ext.enter r p.state).2 []).seek r).codeLoop hext r.last r.length).fixup

theorem Abreast.customPart (h : p.Abreast p') (hext : ext.Inert) (r : Region) :
    (p.customPart job ext r).Abreast (p'.customPart job .absent r) := by
  have hsought := h.seek r
  have habsorbed := hsought.absorb
    (hext.custom job.setting r (p.seek r).cursor (p.seek r).state)
    (Extension.absent_inert.custom job.setting r (p'.seek r).cursor (p'.seek r).state)
  have hdeclined := hext.declines job.setting r (p.seek r).cursor (p.seek r).state
  unfold Pass.customPart
  dsimp only
  rw [if_neg (Bool.eq_false_iff.1 hdeclined)]
  exact habsorbed.addLines (job.cpu.byteLines job.setting r)

theorem Abreast.part (h : p.Abreast p') (hext : ext.Inert) (r : Region) :
    (p.part job ext r).Abreast (p'.part job .absent r) := by
  have hnoted := h.note [.part r] [.part r]
  unfold Pass.part
  cases r.kind with
  | code => exact hnoted.codePart hext r
  | bytes | words | gap => exact hnoted.addLines _
  | custom => exact hnoted.customPart hext r

theorem Abreast.parts (h : p.Abreast p') (hext : ext.Inert) (job : Job) (rs : List Region) :
    (rs.foldl (Pass.part job ext) p).Abreast (rs.foldl (Pass.part job .absent) p') := by
  induction rs generalizing p p' with
  | nil => exact h
  | cons r rs ih => exact ih (h.part hext r)

end Pass

/-- A run with an extension that reads nothing gives what a run without one gives, and begins as
many items. -/
theorem Extension.Inert.run_abreast (hext : ext.Inert) (job : Job) (state : σ) (first last : Int) :
    (job.run ext state first last).output = (job.run .absent () first last).output ∧
      (job.run ext state first last).started = (job.run .absent () first last).started := by
  unfold Job.run
  split
  · exact ⟨rfl, rfl⟩
  · split
    · exact ⟨rfl, rfl⟩
    · rename_i window _
      have hstart : Pass.Abreast { cursor := { offset := 0 }, state := state }
          { cursor := { offset := 0 }, state := () } := ⟨rfl, rfl, rfl⟩
      have hdone := (hstart.parts hext job (job.parts window)).fixup
      exact ⟨congrArg some hdone.output, hdone.started⟩

/-- A script that never reads a byte is transparent: whatever opcodes it takes over, whatever label
it has and whatever is in its journal, the pass gives the items and labels that it gives without
an extension, and pauses after the same items. -/
theorem Script.run_transparent (q : Processor) (script : Script) (map : MemoryMap) (s : Setting)
    (first last : Int) (journal : Script.Journal) (hclaims : ∀ e ∈ script.claims, e.2 = 0)
    (hcustom : script.custom = false) :
    let job : Job := ⟨q.instructionSet, map, s⟩
    let report := job.run script.extension journal first last
    let plain := job.run .absent () first last
    report.output = plain.output ∧ report.pauses = plain.pauses := by
  intro job report plain
  obtain ⟨houtput, hstarted⟩ :=
    (Script.extension_inert hclaims hcustom).run_abreast job journal first last
  exact ⟨houtput, congrArg (fun n => (List.range (n / 100)).map fun i => 100 * (i + 1)) hstarted⟩

/-- A script that takes over at both instructions of an image and in front of a custom region: the
pass warns of it twice and lists all the same. -/
theorem Script.run_transparent_warned :
    let script : Script := { claims := [(0x00, 0), (0xC3, 0)], label := some 7 }
    let s : Setting := { image := { bytes := #[0x00, 0xC3, 0x01, 0x00, 0x3E], base := 0 } }
    let map : MemoryMap := .ofList [.span 0 3 .code, .span 4 4 .custom]
    let job : Job := ⟨Processor.z80.instructionSet, map, s⟩
    let report := job.run script.extension #[] 0 4
    report.output = (job.run .absent () 0 4).output ∧
      report.pauses = (job.run .absent () 0 4).pauses ∧
      report.notices.filter (·.level = .warning) = [.idle 0, .idle 1] ∧
      report.output.map (fun o => o.lines.map Item.opcodes) =
        some [[0x00], [0xC3, 0x01, 0x00], [0x3E]] := by
  intro script s map job report
  obtain ⟨houtput, hpauses⟩ :=
    Script.run_transparent .z80 script map s 0 4 #[] (by decide) rfl
  exact ⟨houtput, hpauses, by decide +kernel, by decide +kernel⟩

end RomListing

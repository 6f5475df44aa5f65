import RomListing.Pass
import RomListing.Proofs.Display.Conventions

/-! # Passes in other words

Passes that differ in words take the same steps. What decides where a pass goes on, when it stops
and what it flags is the cursor, the state of the extension and the addresses of items, and all of
that is in its outline. So two passes with one outline keep to one outline, part by part, whatever
the display of each.
-/

namespace RomListing

def Job.display (job : Job) (decimal bareLabels : Bool) : Job :=
  { job with setting := job.setting.display decimal bareLabels }

theorem Decoded.outline_eq_iff {d d' : Decoded} : d'.outline = d.outline ↔
    d'.item.outline = d.item.outline ∧ d'.references = d.references ∧ d'.cursor = d.cursor := by
  simp only [outline, Decoded.mk.injEq]

theorem Verdict.outline_eq_iff {σ : Type} {v v' : Verdict σ} : v'.outline = v.outline ↔
    v'.state = v.state ∧ (v'.remark.map fun _ => ([] : Text)) = (v.remark.map fun _ => []) ∧
      v'.notices = v.notices := by
  simp only [outline, Verdict.mk.injEq]

/-- A remark is laid over the remark of an item. -/
theorem Item.outline_remark (item : Item) (remark : Option Text) :
    outline { item with remark := remark <|> item.remark } =
      { item.outline with
        remark := (remark.map fun _ => ([] : Text)) <|> item.outline.remark } := by
  cases remark <;> rfl

namespace Pass

variable {σ : Type}

def outline (p : Pass σ) : Pass σ := { p with output := p.output.outline }

theorem outline_eq_iff {p p' : Pass σ} : p'.outline = p.outline ↔
    p'.cursor = p.cursor ∧ p'.state = p.state ∧ p'.output.outline = p.output.outline ∧
      p'.started = p.started ∧ p'.notices = p.notices := by
  simp only [outline, Pass.mk.injEq]

theorem outline_absorb (p : Pass σ) (x : Step σ) :
    (p.absorb x).outline = p.outline.absorb x.outline := by
  unfold absorb outline
  rw [Output.outline_refer, Output.outline_addAll]
  rfl

theorem outline_addLines (p : Pass σ) (lines : List Item) :
    (p.addLines lines).outline = p.outline.addLines (lines.map Item.outline) := by
  unfold addLines outline
  rw [Output.outline_addAll, List.length_map]

theorem outline_fixup (p : Pass σ) : p.fixup.outline = p.outline.fixup := by
  unfold fixup outline
  rw [Output.outline_fixup]

variable {job : Job} {ext : Extension σ} {a : Alphabet} {longest : Nat} {p p' : Pass σ}

/-! ## Steps -/

section

variable (h : job.cpu.Sound a longest) (hw : job.cpu.Rewordable) (hx : ext.Rewordable)
  (decimal bareLabels : Bool)
include h hw hx

theorem decodeStep_display (hp : p'.outline = p.outline) :
    (p'.decodeStep (job.display decimal bareLabels) ext).outline =
      (p.decodeStep job ext).outline := by
  obtain ⟨hcursor, hstate, houtput, hstarted, hnotices⟩ := outline_eq_iff.1 hp
  obtain ⟨hitem, hreferences, hend⟩ := Decoded.outline_eq_iff.1
    (h.decode_display hw job.setting decimal bareLabels p.cursor)
  obtain ⟨hafter, hremark, hmore⟩ := Verdict.outline_eq_iff.1
    (hx.after job.setting decimal bareLabels p.state hitem)
  unfold decodeStep
  dsimp only [Job.display]
  rw [hcursor, hstate]
  refine outline_eq_iff.2 ⟨hend, hafter, ?_, hstarted, ?_⟩
  · dsimp only
    rw [Output.outline_add, Output.outline_add, Output.outline_refer, Output.outline_refer,
      Item.outline_remark, Item.outline_remark, hitem, hremark, hreferences, houtput]
  · dsimp only
    rw [hnotices, hmore]

theorem codeStep_display (hp : p'.outline = p.outline) :
    (p'.codeStep (job.display decimal bareLabels) ext).outline =
      (p.codeStep job ext).outline := by
  obtain ⟨hcursor, hstate, houtput, hstarted, hnotices⟩ := outline_eq_iff.1 hp
  have hstep : (ext.before (job.setting.display decimal bareLabels) p'.cursor p'.state).outline =
      (ext.before job.setting p.cursor p.state).outline := by
    rw [hcursor, hstate]
    exact hx.before job.setting decimal bareLabels p.cursor p.state
  unfold codeStep
  dsimp only [Job.display]
  generalize ext.before job.setting p.cursor p.state = x at hstep ⊢
  generalize ext.before (job.setting.display decimal bareLabels) p'.cursor p'.state = y at hstep ⊢
  have hhandled : y.handled = x.handled := (congrArg Step.handled hstep :)
  have habsorbed : (absorb { p' with started := p'.started + 1 } y).outline =
      (absorb { p with started := p.started + 1 } x).outline := by
    have hstart : outline { p' with started := p'.started + 1 } =
        outline { p with started := p.started + 1 } :=
      outline_eq_iff.2 ⟨hcursor, hstate, houtput, congrArg (· + 1) hstarted, hnotices⟩
    rw [outline_absorb, outline_absorb, hstart, hstep]
  generalize absorb { p with started := p.started + 1 } x = q at habsorbed ⊢
  generalize absorb { p' with started := p'.started + 1 } y = q' at habsorbed ⊢
  obtain ⟨hplace, -⟩ := outline_eq_iff.1 habsorbed
  rw [hhandled, hplace, hcursor]
  split
  · split
    · refine decodeStep_display h hw hx decimal bareLabels ?_
      exact congrArg (note · [.idle p.cursor.offset]) habsorbed
    · exact habsorbed
  · exact decodeStep_display h hw hx decimal bareLabels habsorbed

theorem codeLoop_display (last : Int) (fuel : Nat) (hp : p'.outline = p.outline) :
    (codeLoop (job.display decimal bareLabels) ext last fuel p').outline =
      (codeLoop job ext last fuel p).outline := by
  induction fuel generalizing p p' with
  | zero => exact hp
  | succ fuel ih =>
      obtain ⟨hcursor, -⟩ := outline_eq_iff.1 hp
      have hnext := codeStep_display h hw hx decimal bareLabels hp
      unfold codeLoop
      rw [hcursor]
      split
      · exact ih hnext
      · exact hp

/-! ## Parts -/

theorem codePart_display (r : Region) (hp : p'.outline = p.outline) :
    (p'.codePart (job.display decimal bareLabels) ext r).outline =
      (p.codePart job ext r).outline := by
  obtain ⟨hcursor, hstate, houtput, hstarted, hnotices⟩ := outline_eq_iff.1 hp
  unfold codePart
  dsimp only
  rw [outline_fixup, outline_fixup, hstate]
  refine congrArg fixup (codeLoop_display h hw hx decimal bareLabels r.last r.length ?_)
  exact congrArg (fun q : Pass σ =>
    ({ q with state := (ext.enter r p.state).1 }.note (ext.enter r p.state).2).seek r) hp

omit h hw in
theorem customPart_display (r : Region) (hp : p'.outline = p.outline) :
    (p'.customPart (job.display decimal bareLabels) ext r).outline =
      (p.customPart job ext r).outline := by
  have hsought : (p'.seek r).outline = (p.seek r).outline := congrArg (seek · r) hp
  obtain ⟨hcursor, hstate, -⟩ := outline_eq_iff.1 hsought
  have hstep := hx.custom job.setting decimal bareLabels r (p.seek r).cursor (p.seek r).state
  unfold customPart
  dsimp only [Job.display]
  rw [hcursor, hstate]
  generalize ext.custom job.setting r (p.seek r).cursor (p.seek r).state = x at hstep ⊢
  generalize ext.custom (job.setting.display decimal bareLabels) r (p.seek r).cursor
    (p.seek r).state = y at hstep ⊢
  have hhandled : y.handled = x.handled := (congrArg Step.handled hstep :)
  have habsorbed : ((p'.seek r).absorb y).outline = ((p.seek r).absorb x).outline := by
    rw [outline_absorb, outline_absorb, hsought, hstep]
  rw [hhandled]
  split
  · rw [outline_fixup, outline_fixup, habsorbed]
  · rw [outline_addLines, outline_addLines, habsorbed, InstructionSet.byteLines_display]

theorem part_display (r : Region) (hp : p'.outline = p.outline) :
    (p'.part (job.display decimal bareLabels) ext r).outline = (p.part job ext r).outline := by
  have hnoted : (p'.note [.part r]).outline = (p.note [.part r]).outline :=
    congrArg (note · [.part r]) hp
  have hlines {lines lines' : List Item}
      (hsame : lines'.map Item.outline = lines.map Item.outline) :
      ((p'.note [.part r]).addLines lines').outline =
        ((p.note [.part r]).addLines lines).outline := by
    rw [outline_addLines, outline_addLines, hnoted, hsame]
  unfold part
  dsimp only
  cases r.kind with
  | code => exact codePart_display h hw hx decimal bareLabels r hnoted
  | bytes => exact hlines (job.cpu.byteLines_display job.setting decimal bareLabels r)
  | words => exact hlines (job.cpu.wordLines_display job.setting decimal bareLabels r)
  | gap => exact hlines (congrArg (fun line => [line])
      (job.cpu.gapLine_display job.setting decimal bareLabels r))
  | custom => exact customPart_display hx decimal bareLabels r hnoted

theorem parts_display (rs : List Region) (hp : p'.outline = p.outline) :
    (rs.foldl (part (job.display decimal bareLabels) ext) p').outline =
      (rs.foldl (part job ext) p).outline := by
  induction rs generalizing p p' with
  | nil => exact hp
  | cons r rs ih => exact ih (part_display h hw hx decimal bareLabels r hp)

end

end Pass

/-! ## Runs -/

def Report.outline {σ : Type} (r : Report σ) : Report σ :=
  { r with output := r.output.map Output.outline }

/-- A run tells the same with any display, but for the words of its items. -/
theorem Job.run_display {σ : Type} {job : Job} {ext : Extension σ} {a : Alphabet} {longest : Nat}
    (h : job.cpu.Sound a longest) (hw : job.cpu.Rewordable) (hx : ext.Rewordable)
    (decimal bareLabels : Bool) (state : σ) (first last : Int) :
    ((job.display decimal bareLabels).run ext state first last).outline =
      (job.run ext state first last).outline := by
  have hbytes : (job.display decimal bareLabels).setting.image = job.setting.image := rfl
  have hwindow : (job.display decimal bareLabels).window first last = job.window first last := rfl
  unfold run
  rw [hbytes, hwindow]
  split
  · rfl
  · cases job.window first last with
    | none => rfl
    | some window =>
        let start : Pass σ := { cursor := { offset := 0 }, state := state }
        have hend : ((job.parts window).foldl
            (Pass.part (job.display decimal bareLabels) ext) start).fixup.outline =
              ((job.parts window).foldl (Pass.part job ext) start).fixup.outline := by
          rw [Pass.outline_fixup, Pass.outline_fixup]
          exact congrArg Pass.fixup
            (Pass.parts_display h hw hx decimal bareLabels (job.parts window) rfl)
        obtain ⟨-, hstate, houtput, hstarted, hnotices⟩ := Pass.outline_eq_iff.1 hend
        have hparts : (job.display decimal bareLabels).parts window = job.parts window := rfl
        dsimp only [Report.outline, Option.map_some]
        rw [hparts, houtput, hstate, hstarted, hnotices]

end RomListing

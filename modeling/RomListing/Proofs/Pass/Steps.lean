import RomListing.Proofs.Output.Edits
import RomListing.Proofs.Pass.Lines

/-! # The steps of a pass over code

A code region is read step by step until a step stands behind its end. Every step reads a byte, so
that what the steps list together does not depend on the fuel, if there is some for every address
that is left. Runs of steps compose.
-/

namespace RomListing.Pass

variable {σ : Type} {job : Job} {ext : Extension σ} {last : Int} {p p' p'' : Pass σ}
  {items items' : List Item}

/-! ## Single steps -/

/-- A step that the extension takes over and does not stall in is left to it. -/
theorem codeStep_takes (hhandled : (ext.before job.setting p.cursor p.state).handled = true)
    (hgoes : ¬((ext.before job.setting p.cursor p.state).cursor.offset = p.cursor.offset ∧
      (ext.before job.setting p.cursor p.state).cursor.overflow = false)) :
    p.codeStep job ext =
      { p with started := p.started + 1 }.absorb (ext.before job.setting p.cursor p.state) :=
  (if_pos hhandled).trans (if_neg hgoes)

/-- A step that the extension stalls in is warned of, and the instruction is read. -/
theorem codeStep_stalls (hhandled : (ext.before job.setting p.cursor p.state).handled = true)
    (hstalls : (ext.before job.setting p.cursor p.state).cursor.offset = p.cursor.offset ∧
      (ext.before job.setting p.cursor p.state).cursor.overflow = false) :
    p.codeStep job ext =
      (({ p with started := p.started + 1 }.absorb (ext.before job.setting p.cursor p.state)).note
        [.idle p.cursor.offset]).decodeStep job ext :=
  (if_pos hhandled).trans (if_pos hstalls)

/-- Where the extension declines the instruction is read. -/
theorem codeStep_declines (hdeclined : (ext.before job.setting p.cursor p.state).handled = false) :
    p.codeStep job ext =
      ({ p with started := p.started + 1 }.absorb
        (ext.before job.setting p.cursor p.state)).decodeStep job ext :=
  if_neg (Bool.eq_false_iff.1 hdeclined)

/-- A step that reads a byte does not stall. -/
theorem codeStep_handled
    (hhandled : (ext.before job.setting p.cursor p.state).handled = true)
    (hlt : p.cursor.offset < (ext.before job.setting p.cursor p.state).cursor.offset) :
    p.codeStep job ext =
      { p with started := p.started + 1 }.absorb (ext.before job.setting p.cursor p.state) :=
  codeStep_takes hhandled fun hstalls => absurd hstalls.1 (Int.ne_of_gt hlt)

theorem lines_absorb (p : Pass σ) {step : Step σ}
    (h : ∀ item ∈ step.items, item.hasLabel = false) :
    (p.absorb step).output.lines = p.output.lines ++ step.items :=
  (Output.lines_refer _ _).trans (Output.lines_addAll_of_plain _ h)

/-- An extension that declines leaves its state and the cursor as they are. -/
theorem codeStep_of_declined (hdeclined : ext.before job.setting p.cursor p.state =
      { handled := false, state := p.state, cursor := p.cursor }) :
    p.codeStep job ext = decodeStep job ext ({ p with started := p.started + 1 }.absorb
      { handled := false, state := p.state, cursor := p.cursor }) := by
  rw [codeStep_declines (congrArg Step.handled hdeclined), hdeclined]

/-- An extension that declines is shown the instruction at the cursor. -/
theorem codeStep_declined (hdeclined : ext.before job.setting p.cursor p.state =
      { handled := false, state := p.state, cursor := p.cursor })
    (hplain : (job.cpu.decode job.setting p.cursor).item.hasLabel = false) :
    let d := job.cpu.decode job.setting p.cursor
    let v := ext.after job.setting d.item p.state
    (p.codeStep job ext).cursor = d.cursor ∧ (p.codeStep job ext).state = v.state ∧
      (p.codeStep job ext).output.lines =
        p.output.lines ++ [{ d.item with remark := v.remark <|> d.item.remark }] := by
  intro d v
  rw [codeStep_of_declined hdeclined]
  have hitem : ∀ item ∈ [{ d.item with remark := v.remark <|> d.item.remark }],
      item.hasLabel = false := by
    intro item hi
    rw [List.mem_singleton.1 hi]
    exact hplain
  refine ⟨rfl, rfl, ?_⟩
  rw [← Output.lines_refer p.output d.references]
  exact Output.lines_addAll_of_plain (p.output.refer d.references) hitem

/-! ## Runs of steps -/

/-- Reading on from `p` leads to the lines, if there is fuel for every address that is left. -/
def Lists (job : Job) (ext : Extension σ) (last : Int) (p : Pass σ) (lines : List Item) : Prop :=
  ∀ fuel : Nat, last < p.cursor.offset + fuel → (codeLoop job ext last fuel p).output.lines = lines

theorem lists_of_lt (h : last < p.cursor.offset) : Lists job ext last p p.output.lines := by
  intro fuel _
  cases fuel with
  | zero => rfl
  | succ fuel => rw [codeLoop, if_neg (by omega)]

/-- Steps lead from `p` to `p'` and list the items on the way. -/
structure Advances (job : Job) (ext : Extension σ) (last : Int) (p : Pass σ) (items : List Item)
    (p' : Pass σ) : Prop where
  lines : p'.output.lines = p.output.lines ++ items
  goesOn : ∀ lines, Lists job ext last p' lines → Lists job ext last p lines

theorem Advances.refl (p : Pass σ) : Advances job ext last p [] p :=
  ⟨(List.append_nil _).symm, fun _ h => h⟩

theorem Advances.trans (h : Advances job ext last p items p')
    (h' : Advances job ext last p' items' p'') :
    Advances job ext last p (items ++ items') p'' := by
  refine ⟨?_, fun lines hlines => h.goesOn lines (h'.goesOn lines hlines)⟩
  rw [h'.lines, h.lines, List.append_assoc]

theorem advances_codeStep (hle : p.cursor.offset ≤ last) (ho : p.cursor.overflow = false)
    (hlt : p.cursor.offset < (p.codeStep job ext).cursor.offset)
    (hlines : (p.codeStep job ext).output.lines = p.output.lines ++ items) :
    Advances job ext last p items (p.codeStep job ext) := by
  refine ⟨hlines, fun lines hnext fuel hfuel => ?_⟩
  cases fuel with
  | zero => omega
  | succ fuel =>
      rw [codeLoop, if_pos ⟨hle, ho⟩]
      exact hnext fuel (by omega)

end RomListing.Pass

import RomListing.Proofs.Pass.Steps
import RomListing.Proofs.Processor

/-! # What earlier work leaves in a cursor

Between two instructions a cursor still has the start, the bytes and the registers of what was read
last: an instruction, or bytes that an extension read before it declined. Nothing of this counts for
the next instruction. It depends on the place alone, and the overflow mark is handed on.
-/

namespace RomListing

variable {c c' : Cursor}

/-- Cursors at the same place go on with the same instruction, whatever else is left in them. Only
their overflow marks may differ afterwards, and not if they were equal before. -/
theorem Processor.decode_ignores_leftovers (q : Processor) (s : Setting)
    (hplace : c'.offset = c.offset) :
    let d := q.instructionSet.decode s c
    let d' := q.instructionSet.decode s c'
    d'.item = d.item ∧ d'.references = d.references ∧
      d'.cursor = { d.cursor with overflow := d'.cursor.overflow } ∧
      (c'.overflow = c.overflow → d'.cursor.overflow = d.cursor.overflow) := by
  intro d d'
  -- both are what a cursor that is new at the place reads
  have hd : d = _ := q.sound.decode_anew s c
  have hd' : d' = _ := q.sound.decode_anew s c'
  rw [hplace] at hd'
  rw [hd, hd']
  refine ⟨rfl, rfl, rfl, fun hover => ?_⟩
  rw [hover]

/-- An extension has read two bytes and declined. The instruction behind them has a prefix, an index
register and a displacement of its own, and so have the leftovers. -/
theorem Processor.decode_ignores_leftovers_declined :
    let s : Setting := { image := { bytes := #[0xDD, 0x7E, 0xFD, 0xCB, 0x05, 0xCE] } }
    let earlier : Cursor :=
      { offset := 0, opStart := -4, taken := #[0xDD, 0x36], opcode := 0x36, index := .ix,
        displacement := some 9 }
    let c : Cursor := { offset := 2 }
    let c' := (earlier.fetchMany s 2).2
    let d := z80.instructionSet.decode s c
    let d' := z80.instructionSet.decode s c'
    c'.offset = c.offset ∧ c'.overflow = c.overflow ∧ c'.taken = #[0xDD, 0x36, 0xDD, 0x7E] ∧
      d'.item = d.item ∧ d'.item.text = "set 1,(iy+$05)" ∧ d'.cursor = d.cursor := by
  intro s earlier c c' d d'
  have hplace : c'.offset = c.offset := by decide
  have hover : c'.overflow = c.overflow := by decide
  obtain ⟨hitem, -, hcursor, hmark⟩ := decode_ignores_leftovers z80 s hplace
  refine ⟨hplace, hover, by decide, hitem, ?_, ?_⟩
  · rw [hitem]
    decide +kernel
  · rw [hcursor, hmark hover]

/-- Where an extension declines the instruction is read that a new cursor reads at the place where
the extension left off. -/
theorem Pass.codeStep_anew {σ : Type} {job : Job} {ext : Extension σ} {p : Pass σ} {a : Alphabet}
    {longest : Nat} (h : job.cpu.Sound a longest)
    (hdeclined : (ext.before job.setting p.cursor p.state).handled = false) :
    let step := ext.before job.setting p.cursor p.state
    let d := job.cpu.decode job.setting { offset := step.cursor.offset }
    let v := ext.after job.setting d.item step.state
    let next := p.codeStep job ext
    next.cursor = d.cursor.spill step.cursor.overflow ∧ next.state = v.state ∧
      next.output = (((p.output.addAll step.items).refer step.references).refer d.references).add
        { d.item with remark := v.remark <|> d.item.remark } := by
  intro step d v next
  have hanew : job.cpu.decode job.setting step.cursor =
      { d with cursor := d.cursor.spill step.cursor.overflow } := h.decode_anew _ _
  have hnext : next =
      decodeStep job ext (({ p with started := p.started + 1 } : Pass σ).absorb step) :=
    codeStep_declines hdeclined
  rw [hnext]
  unfold decodeStep absorb
  dsimp only
  rw [hanew]
  exact ⟨rfl, rfl, rfl⟩

end RomListing

import Mathlib.Data.List.Forall2
import RomListing.Proofs.Output.Edits
import RomListing.Proofs.Pass.Lines
import RomListing.Proofs.Relocation.Conventions

/-! # Passes over a moved image

Two passes whose cursors meet and whose states agree read the same bytes in step, if one of them
works on the image of the other moved. Every part of a map brings passes into step before anything
is read, so that what they held before it does not count: parts that meet edit the outputs alike.
-/

namespace RomListing

open Output (Alike alike_addAll alike_refer)

/-- The second job reads the image of the first one moved, by the same rules. -/
structure Job.Meets (k : Int) (job job' : Job) : Prop where
  cpu : job'.cpu = job.cpu
  setting : job'.setting = job.setting.move k
  repeats : job.setting.options.Repeats k

namespace Pass

structure Meets {σ : Type} (k : Int) (p p' : Pass σ) : Prop where
  cursor : p.cursor.Meets k p'.cursor
  state : p'.state = p.state

variable {σ : Type} {job job' : Job} {ext : Extension σ} {a : Alphabet} {longest : Nat} {k : Int}
  {p p' : Pass σ} {r r' : Region}

theorem absorb_alike (p p' : Pass σ) {x y : Step σ} (hitems : y.items = x.items)
    (hreferences : y.references = x.references) :
    Alike p.output (p.absorb x).output p'.output (p'.absorb y).output := by
  unfold absorb
  rw [hitems, hreferences]
  exact (alike_addAll ..).trans (alike_refer ..)

/-! ## Steps -/

section

variable (h : job.cpu.Sound a longest) (hm : job.cpu.Movable) (hx : ext.Local)
  (hj : job.Meets k job')
include h hm hx hj

theorem decodeStep_meets (hp : p.Meets k p') :
    (p.decodeStep job ext).Meets k (p'.decodeStep job' ext) ∧
      Alike p.output (p.decodeStep job ext).output p'.output (p'.decodeStep job' ext).output := by
  have hdecode := h.decode_meets hm hj.repeats hp.cursor
  simp only [decodeStep, hj.cpu, hj.setting, hdecode, hx.after, hp.state]
  exact ⟨⟨Cursor.meets_move k _, rfl⟩, (alike_refer ..).trans (alike_addAll _ _ [_])⟩

theorem codeStep_meets (hp : p.Meets k p') :
    (p.codeStep job ext).Meets k (p'.codeStep job' ext) ∧
      Alike p.output (p.codeStep job ext).output p'.output (p'.codeStep job' ext).output := by
  have hbefore : (ext.before job.setting p.cursor p.state).Meets k
      (ext.before job'.setting p'.cursor p'.state) := by
    rw [hj.setting, hp.state]
    exact hx.before p.state hj.repeats hp.cursor
  have hplace (c c' : Cursor) (hc : c.Meets k c') :
      c'.offset = p'.cursor.offset ∧ c'.overflow = false ↔
        c.offset = p.cursor.offset ∧ c.overflow = false := by
    rw [hc.offset, hc.overflow, hp.cursor.offset, Int.add_left_inj]
  unfold codeStep
  dsimp only
  generalize ext.before job.setting p.cursor p.state = x at *
  generalize ext.before job'.setting p'.cursor p'.state = y at *
  have hedits := absorb_alike { p with started := p.started + 1 }
    { p' with started := p'.started + 1 } hbefore.items hbefore.references
  have hmeets : Meets k (absorb { p with started := p.started + 1 } x)
      (absorb { p' with started := p'.started + 1 } y) := ⟨hbefore.cursor, hbefore.state⟩
  generalize absorb { p with started := p.started + 1 } x = q at *
  generalize absorb { p' with started := p'.started + 1 } y = q' at *
  simp only [hbefore.handled, hplace _ _ hmeets.cursor]
  split
  · split
    · have hnoted : (q.note [.idle p.cursor.offset]).Meets k (q'.note [.idle p'.cursor.offset]) :=
        ⟨hmeets.cursor, hmeets.state⟩
      obtain ⟨hend, hlast⟩ := decodeStep_meets h hm hx hj hnoted
      exact ⟨hend, hedits.trans hlast⟩
    · exact ⟨hmeets, hedits⟩
  · obtain ⟨hend, hlast⟩ := decodeStep_meets h hm hx hj hmeets
    exact ⟨hend, hedits.trans hlast⟩

theorem codeLoop_alike (last : Int) (fuel : Nat) (hp : p.Meets k p') :
    Alike p.output (codeLoop job ext last fuel p).output
      p'.output (codeLoop job' ext (last + k) fuel p').output := by
  induction fuel generalizing p p' with
  | zero => exact .refl _ _
  | succ fuel ih =>
      have hgoes : p'.cursor.offset ≤ last + k ∧ p'.cursor.overflow = false ↔
          p.cursor.offset ≤ last ∧ p.cursor.overflow = false := by
        rw [hp.cursor.offset, hp.cursor.overflow, Int.add_le_add_iff_right]
      obtain ⟨hnext, hedits⟩ := codeStep_meets h hm hx hj hp
      unfold codeLoop
      simp only [hgoes]
      split
      · exact hedits.trans (ih hnext)
      · exact .refl _ _

/-! ## Parts -/

theorem codePart_alike (p p' : Pass σ) (hr : r.Meets k r') :
    Alike p.output (p.codePart job ext r).output p'.output (p'.codePart job' ext r').output := by
  have hstate := hx.enter r r' p.state p'.state
  unfold codePart
  dsimp only
  rw [hr.last, hr.length]
  refine Alike.fixup (codeLoop_alike h hm hx hj r.last r.length ?_)
  exact ⟨⟨hr.first, rfl⟩, hstate⟩

omit hm in
theorem customPart_alike (p p' : Pass σ) (hr : r.Meets k r') :
    Alike p.output (p.customPart job ext r).output
      p'.output (p'.customPart job' ext r').output := by
  have hstart : (p.seek r).cursor.Meets k (p'.seek r').cursor := ⟨hr.first, rfl⟩
  obtain ⟨hhandled, hitems, hreferences⟩ :=
    hx.custom (p.seek r).state (p'.seek r').state hj.repeats hstart hr
  have hedits := absorb_alike (p.seek r) (p'.seek r') hitems hreferences
  unfold customPart
  simp only [hj.cpu, hj.setting, hhandled, h.byteLines_meets hj.repeats hr]
  split
  · exact hedits.fixup
  · exact hedits.trans (alike_addAll ..)

/-- Whatever the passes hold before a part, they list it alike. -/
theorem part_alike (p p' : Pass σ) (hr : r.Meets k r') :
    Alike p.output (p.part job ext r).output p'.output (p'.part job' ext r').output := by
  unfold part
  dsimp only
  rw [hr.kind, hj.cpu, hj.setting]
  cases r.kind with
  | code => exact codePart_alike h hm hx hj (p.note [.part r]) (p'.note [.part r']) hr
  | bytes =>
      rw [h.byteLines_meets hj.repeats hr]
      exact alike_addAll ..
  | words =>
      rw [h.wordLines_meets hj.repeats hr]
      exact alike_addAll ..
  | gap =>
      rw [h.gapLine_meets hj.repeats hr]
      exact alike_addAll ..
  | custom => exact customPart_alike h hx hj (p.note [.part r]) (p'.note [.part r']) hr

theorem parts_alike {rs rs' : List Region} (hrs : List.Forall₂ (Region.Meets k) rs rs')
    (p p' : Pass σ) : Alike p.output (rs.foldl (part job ext) p).output
      p'.output (rs'.foldl (part job' ext) p').output := by
  induction hrs generalizing p p' with
  | nil => exact .refl _ _
  | cons hr _ ih => exact (part_alike h hm hx hj p p' hr).trans (ih _ _)

end

end Pass

/-! ## Runs -/

namespace Job

variable {σ : Type} {job job' : Job} {ext : Extension σ} {a : Alphabet} {longest : Nat} {k : Int}

/-- Parts that meet are listed the same, from whatever state. -/
theorem listing_meets (h : job.cpu.Sound a longest) (hm : job.cpu.Movable) (hx : ext.Local)
    (hj : job.Meets k job') {window window' : Region}
    (hparts : List.Forall₂ (Region.Meets k) (job.parts window) (job'.parts window'))
    (state state' : σ) :
    job'.listing ext state' window' = job.listing ext state window := by
  have hedits := Pass.parts_alike h hm hx hj hparts
    { cursor := { offset := 0 }, state := state } { cursor := { offset := 0 }, state := state' }
  exact hedits.fixup.eq

end Job

end RomListing

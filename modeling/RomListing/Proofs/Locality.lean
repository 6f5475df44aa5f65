import RomListing.Proofs.Cursor.Agreement
import RomListing.Proofs.Processor

/-! # The processors look at no byte but those that they take

Prefixes, the opcode and a displacement are read one after another, each where the one before it
says that there is one to read. The operands follow as the letters of the pattern ask for them.
-/

namespace RomListing

variable {s s' : Setting} {start stop : Int}

/-- A choice between two selections is the same as soon as the one that is chosen is. -/
theorem Selection.ite_local {P : Prop} [Decidable P] {x y x' y' : Selection}
    (hw : (if P then x else y).cursor.Within stop) (hx : x.cursor.Within stop → x' = x)
    (hy : y.cursor.Within stop → y' = y) : (if P then x' else y') = if P then x else y := by
  by_cases hP : P
  · rw [if_pos hP] at hw
    rw [if_pos hP, if_pos hP, hx hw]
  · rw [if_neg hP] at hw
    rw [if_neg hP, if_neg hP, hy hw]

namespace Z80

section

variable (h : s.Agrees s' start stop)
include h

theorem fetchOpcode_local {c : Cursor} (hc : start ≤ c.offset)
    (hw : (fetchOpcode s c).2.Within stop) : fetchOpcode s' c = fetchOpcode s c := by
  unfold fetchOpcode
  rw [h.fetch hc ⟨hw.complete, hw.offset_le⟩]

theorem fetchDisplacement_local {c : Cursor} (hc : start ≤ c.offset)
    (hw : (fetchDisplacement s c).Within stop) : fetchDisplacement s' c = fetchDisplacement s c := by
  unfold fetchDisplacement
  rw [h.fetch hc ⟨hw.complete, hw.offset_le⟩]

theorem selectIndexed_local {c : Cursor} (hc : start ≤ c.offset)
    (hw : (selectIndexed s c).cursor.Within stop) : selectIndexed s' c = selectIndexed s c := by
  obtain ⟨n, hn, -, hreads, -⟩ := selectIndexed_selects s c
  have hfirst := hreads.first_within hn hw
  have hopcode := fetchOpcode_local h hc ⟨hfirst.complete, hfirst.offset_le⟩
  have hc' : start ≤ (fetchOpcode s c).2.offset :=
    Int.le_trans hc (fetchOpcode_reads s c).offset_le
  unfold selectIndexed at hw ⊢
  rw [hopcode]
  dsimp only at hw ⊢
  refine Selection.ite_local hw (fun hw => ?_) fun hw => ?_
  · have hdreads := fetchDisplacement_reads s (fetchOpcode s c).2
    have hd := fetchDisplacement_local h hc' ((fetchOpcode_reads s _).within hw)
    have hbehind := fetchOpcode_local h (Int.le_trans hc' hdreads.offset_le) hw
    rw [hd, hbehind]
  · cases hpattern : indexedPattern (fetchOpcode s c).1 with
    | none => rfl
    | some text =>
        rw [hpattern] at hw
        dsimp only at hw ⊢
        by_cases hd : usesDisplacement text.toList
        · rw [if_pos hd] at hw
          rw [if_pos hd, if_pos hd, fetchDisplacement_local h hc' hw]
        · rw [if_neg hd, if_neg hd]

theorem select_local {c : Cursor} (hc : start ≤ c.offset)
    (hw : (select s c).cursor.Within stop) : select s' c = select s c := by
  obtain ⟨n, hn, -, hreads, -⟩ := select_selects s c
  have hfirst := hreads.first_within hn hw
  have hopcode := fetchOpcode_local h hc ⟨hfirst.complete, hfirst.offset_le⟩
  have hc' : start ≤ (fetchOpcode s c).2.offset :=
    Int.le_trans hc (fetchOpcode_reads s c).offset_le
  unfold select at hw ⊢
  rw [hopcode, h.options]
  dsimp only at hw ⊢
  refine Selection.ite_local hw (fun hw => ?extended) fun hw =>
    Selection.ite_local hw (fun hw => ?bits) fun hw =>
      Selection.ite_local hw (fun hw => ?ix) fun hw =>
        Selection.ite_local hw (fun hw => ?iy) fun _ => rfl
  case extended | bits => rw [fetchOpcode_local h hc' hw]
  case ix => exact selectIndexed_local h (c := { (fetchOpcode s c).2 with index := .ix }) hc' hw
  case iy => exact selectIndexed_local h (c := { (fetchOpcode s c).2 with index := .iy }) hc' hw

theorem expand_local {letter : Letter} {c : Cursor} (hc : start ≤ c.offset)
    (hw : (expand s letter c).2.Within stop) : expand s' letter c = expand s letter c := by
  unfold expand at hw ⊢
  dsimp only at hw ⊢
  rw [h.options]
  split at hw
  case h_2 => exact h.relative hc hw
  case h_4 => exact h.absolute hc hw
  case h_6 => exact h.byte hc hw
  case h_7 => rw [h.fetch hc hw]
  case h_8 => exact h.word hc hw
  case h_9 =>
    have hreads := c.fetch_reads s
    have hhigh := h.fetch hc ((Cursor.fetch_reads s _).within hw)
    rw [hhigh, h.fetch (Int.le_trans hc hreads.offset_le) hw]
  all_goals rfl

end

theorem isLocal : instructionSet.Local where
  select := select_local
  expand := expand_local

end Z80

namespace Mos6502

theorem isLocal : instructionSet.Local where
  select h c hc hw := by
    simp only [instructionSet, select]
    rw [h.fetch hc ⟨hw.complete, hw.offset_le⟩]
  expand h letter c hc hw := by
    simp only [instructionSet] at hw ⊢
    unfold expand at hw ⊢
    dsimp only at hw ⊢
    rw [h.options]
    split at hw
    case h_7 | h_8 | h_9 | h_10 => exact h.word hc hw
    case h_11 => exact h.absolute hc hw
    case h_12 => exact h.relative hc hw
    case h_13 => rfl
    all_goals exact h.byte hc hw

end Mos6502

theorem Processor.isLocal (q : Processor) : q.instructionSet.Local := by
  cases q with
  | z80 => exact Z80.isLocal
  | mos6502 => exact Mos6502.isLocal

end RomListing

import RomListing.InstructionSet
import RomListing.Proofs.Checked.Access
import RomListing.Proofs.Pattern.Marks

/-! # Checked patterns

The timing of a pattern stands in lists: the text is split at its bars, and what stands behind
the first bar at its slashes. A mark stands at the position of the first caret. The twins here
take these lists apart by position and read every number.
-/

namespace RomListing

/-! ## Texts in parts -/

namespace Text

open Pattern

/-- The first part ends where the text is cut, and the other parts are those of the rest. -/
theorem split_eq_cut (bar : Char) (t : Text) :
    split (Letter.char bar) t = (cut bar t).1 :: (cut bar t).2.elim [] (split (.char bar)) := by
  induction t with
  | nil => rfl
  | cons l rest ih =>
      by_cases hl : l = .char bar
      · simp [split, cut, hl]
      · simp [split, cut, hl, ih]

end Text

namespace Pattern

/-- The search for a mark finds the first caret that a letter follows. -/
theorem splitMark_eq (t : Text) : splitMark t =
    t[t.idxOf (.char '^') + 1]?.map fun letter =>
      (t.take (t.idxOf (.char '^')), letter, t.drop (t.idxOf (.char '^') + 2)) := by
  induction t with
  | nil => rfl
  | cons l rest ih =>
      by_cases hl : l = .char '^'
      · subst hl
        cases rest with
        | nil => rfl
        | cons letter rest => simp [splitMark]
      · have hfirst : (l :: rest).idxOf (.char '^') = rest.idxOf (.char '^') + 1 := by
          rw [List.idxOf_cons, beq_false_of_ne hl]
          rfl
        rw [splitMark_cons _ hl, ih, hfirst, Option.map_map]
        rfl

/-! ## Timings -/

def checkedTiming (text : Text) : Checked Int := (Text.Integer.read 10 text).mapError .timing

def checkedParse (text : Text) (timing : Int) : Checked Pattern := do
  let parts := Text.split (Letter.char '|') text
  let before ← Checked.get parts 0
  if 1 < parts.length then
    let numbers := Text.split (Letter.char '/') (← Checked.get parts 1)
    let t ← checkedTiming (← Checked.get numbers 0)
    let alt ← if 1 < numbers.length then checkedTiming (← Checked.get numbers 1) else pure 0
    return ⟨before, t, alt⟩
  else return ⟨before, timing, 0⟩

theorem checkedParse_eq (text : Text) (timing : Int) :
    checkedParse text timing = (parse text timing).mapError .timing := by
  unfold checkedParse checkedTiming parse
  rw [Text.split_eq_cut]
  obtain ⟨before, more⟩ := cut '|' text
  cases more with
  | none => rfl
  | some rest =>
      simp only [Option.elim_some, Text.split_eq_cut, Checked.get_zero, Checked.get_one, pure_bind]
      obtain ⟨numbers, others⟩ := cut '|' rest
      obtain ⟨first, more⟩ := cut '/' numbers
      rw [if_pos (by simp)]
      cases Text.Integer.read 10 first with
      | error fault => rfl
      | ok t =>
          cases more with
          | none => rfl
          | some text =>
              simp only [Option.elim_some, Text.split_eq_cut, Checked.get_one, pure_bind]
              cases Text.Integer.read 10 (cut '/' text).1 <;> rfl

example : checkedParse "jr ^r|12/" 4 = .error (.timing (.notLiteral 10 "")) := rfl

/-! ## Marks -/

def checkedExpandFrom (expand : Letter → Cursor → Checked (Replacement × Cursor)) :
    Nat → Item → Cursor → Checked Expansion
  | 0, item, c => return { item := item, cursor := c }
  | fuel + 1, item, c => do
    let i := item.text.idxOf (.char '^')
    if i + 1 < item.text.length then
      let letter ← Checked.get item.text (i + 1)
      let (r, c) ← expand letter c
      let rest ← checkedExpandFrom expand fuel
        (fill item (item.text.take i) (item.text.drop (i + 2)) r) c
      return { rest with
        letters := letter :: rest.letters
        references := r.reference.toList ++ rest.references }
    else return { item := item, cursor := c }

theorem checkedExpandFrom_eq {checked : Letter → Cursor → Checked (Replacement × Cursor)}
    {e : Expander} (h : ∀ letter c, checked letter c = pure (e letter c)) (fuel : Nat) (item : Item)
    (c : Cursor) : checkedExpandFrom checked fuel item c = pure (expandFrom e fuel item c) := by
  induction fuel generalizing item c with
  | zero => rfl
  | succ fuel ih =>
      rw [checkedExpandFrom, expandFrom, splitMark_eq]
      dsimp only
      split
      · rename_i hlt
        have hget := List.getElem?_eq_getElem hlt
        rw [hget, Checked.get_eq (by omega) hget]
        simp only [pure_bind, h, ih, Option.map_some]
      · rename_i hle
        rw [List.getElem?_eq_none (by omega), Option.map_none]

end Pattern

/-! ## Instructions -/

/-- The twins of an instruction set, with the promise that they never stop and that the
patterns they select have numbers for timings. -/
structure InstructionSet.Twin (cpu : InstructionSet) where
  select : Setting → Cursor → Checked Selection
  expand : Setting → Letter → Cursor → Checked (Replacement × Cursor)
  select_eq : ∀ s c, select s c = pure (cpu.select s c)
  expand_eq : ∀ s letter c, expand s letter c = pure (cpu.expand s letter c)
  timed : ∀ s c text, (cpu.select s c).text = some text → Pattern.timed text = true

def Selection.checkedPattern (x : Selection) : Checked Pattern :=
  match x.text with
  | none => pure ⟨"", x.timing, 0⟩
  | some text => Pattern.checkedParse text x.timing

theorem Selection.checkedPattern_eq {x : Selection}
    (h : ∀ text, x.text = some text → Pattern.timed text = true) :
    x.checkedPattern = pure x.pattern := by
  unfold checkedPattern pattern
  cases hx : x.text with
  | none => rfl
  | some text =>
      obtain ⟨p, hp⟩ := Pattern.exists_parse (h text hx) x.timing
      simp only [Pattern.checkedParse_eq, Option.bind_eq_bind, Option.bind_some, Option.pure_def,
        Option.map_some, hp]
      rfl

namespace InstructionSet

variable {cpu : InstructionSet}

def checkedDecode (twin : cpu.Twin) (s : Setting) (c : Cursor) : Checked Decoded := do
  let place := fold cpu.addressMask c.offset
  let selection ← twin.select s c.begin
  let pattern ← selection.checkedPattern
  let partition ← s.options.checkedPartitionAt place
  let item : Item :=
    { address := cpu.shownAddress s place
      text := if pattern.text.isEmpty then cpu.undefinedText else pattern.text
      partition := partition
      timing := pattern.timing
      altTiming := pattern.altTiming }
  let e ←
    if pattern.text.isEmpty then pure { item := item, cursor := selection.cursor }
    else Pattern.checkedExpandFrom (twin.expand s) Pattern.maxMarks item selection.cursor
  return { item := { e.item with opcodes := e.cursor.taken.toList }
           references := e.references
           cursor := e.cursor }

theorem checkedDecode_eq (twin : cpu.Twin) (s : Setting) (c : Cursor) :
    checkedDecode twin s c = pure (cpu.decode s c) := by
  have hpattern := Selection.checkedPattern_eq (twin.timed s c.begin)
  have hexpand := Pattern.checkedExpandFrom_eq (twin.expand_eq s)
  unfold checkedDecode decode
  simp only [twin.select_eq, hpattern, Options.checkedPartitionAt_eq, hexpand, pure_bind]
  split <;> rfl

end InstructionSet

end RomListing

import RomListing.Pattern

/-! # The marks of a pattern

Replacing marks starts again at the left each time. As long as no replacement holds a caret
this comes to one walk over the pattern: its marks are known from the text alone, each is
replaced once and in order, and what an instruction reads and refers to follows from them. The
timing behind the bar can be read or not by the text alone, too: a time that is given from outside
stands in where the text has none.
-/

namespace RomListing

/-- No replacement of the expander can be taken for a mark. -/
def Expander.CaretFree (e : Expander) : Prop := ∀ letter c, .char '^' ∉ (e letter c).1.text

/-- The number that a replacement names; an empty one names none. -/
def Replacement.named (r : Replacement) : Option Int := if r.text.isEmpty then none else r.value

/-- What a replacement tells about its item, the wording apart. -/
def Item.note (item : Item) (r : Replacement) : Item :=
  { item with
    hasLabelSymbol := item.hasLabelSymbol || r.isLabel
    hasSymbol := item.hasSymbol || r.named.isSome
    symbolValue := r.named <|> item.symbolValue
    remark := r.remark <|> item.remark }

def Item.reword (item : Item) (text : Text) (position length : Option Int) : Item :=
  { item with text := text, tokenPosition := position, tokenLength := length }

def Expander.replacements (e : Expander) : List Letter → Cursor → List Replacement × Cursor
  | [], c => ([], c)
  | letter :: rest, c =>
    let (r, c) := e letter c
    let (rs, c) := e.replacements rest c
    (r :: rs, c)

namespace Pattern

def marks : Text → List Letter
  | [] => []
  | [_] => []
  | a :: b :: rest => if a = .char '^' then b :: marks rest else marks (b :: rest)

theorem marks_cons {a : Letter} (t : Text) (h : a ≠ .char '^') : marks (a :: t) = marks t := by
  cases t with
  | nil => rfl
  | cons b rest => simp [marks, h]

theorem splitMark_cons {a : Letter} (t : Text) (h : a ≠ .char '^') :
    splitMark (a :: t) =
      (splitMark t).map fun (before, letter, after) => (a :: before, letter, after) := by
  rw [splitMark]
  · rintro rfl
    exact (h rfl).elim
  · rintro letter rest rfl
    exact (h rfl).elim

theorem splitMark_append {before : Text} (t : Text) (h : .char '^' ∉ before) :
    splitMark (before ++ t) =
      (splitMark t).map fun (b, letter, after) => (before ++ b, letter, after) := by
  induction before with
  | nil => simp
  | cons a before ih =>
      simp only [List.mem_cons, not_or] at h
      rw [List.cons_append, splitMark_cons _ (Ne.symm h.1), ih h.2, Option.map_map]
      rfl

theorem marks_of_splitMark_none {t : Text} (h : splitMark t = none) : marks t = [] := by
  fun_induction splitMark t with
  | case1 => rfl
  | case2 => rfl
  | case3 => cases h
  | case4 a rest hlone hmark ih =>
      have ha : a ≠ .char '^' := by
        rintro rfl
        cases rest with
        | nil => exact hlone rfl rfl
        | cons b rest => exact hmark b rest rfl rfl
      rw [marks_cons _ ha]
      exact ih (Option.map_eq_none_iff.1 h)

/-- The search finds the first mark, with nothing before it that could be one. -/
theorem splitMark_eq_some {t before after : Text} {letter : Letter}
    (h : splitMark t = some (before, letter, after)) :
    t = before ++ .char '^' :: letter :: after ∧ .char '^' ∉ before ∧
      marks t = letter :: marks after := by
  fun_induction splitMark t generalizing before with
  | case1 => cases h
  | case2 => cases h
  | case3 letter rest =>
      cases h
      simp [marks]
  | case4 a rest hlone hmark ih =>
      have ha : a ≠ .char '^' := by
        rintro rfl
        cases rest with
        | nil => exact hlone rfl rfl
        | cons b rest => exact hmark b rest rfl rfl
      obtain ⟨⟨b, l, r⟩, hsplit, he⟩ := Option.map_eq_some_iff.1 h
      cases he
      obtain ⟨ht, hb, hm⟩ := ih hsplit
      exact ⟨congrArg (a :: ·) ht, by simp [Ne.symm ha, hb], by rw [marks_cons _ ha, hm]⟩

/-! ## One walk -/

theorem fill_eq_note (item : Item) (before after : Text) (r : Replacement) :
    fill item before after r =
      (item.note r).reword (before ++ r.text ++ after) (fill item before after r).tokenPosition
        (fill item before after r).tokenLength := by
  unfold fill Item.note Item.reword Replacement.named
  cases hv : r.value with
  | none => simp
  | some v => by_cases ht : r.text.isEmpty <;> simp [ht]

theorem foldl_note_reword (rs : List Replacement) (item : Item) (text : Text)
    (position length : Option Int) :
    rs.foldl Item.note (item.reword text position length) =
      (rs.foldl Item.note item).reword text position length := by
  induction rs generalizing item with
  | nil => rfl
  | cons r rs ih => exact ih (item.note r)

/-- What an expansion is that replaces the marks with the given letters, once each and in
order. -/
structure Follows (e : Expander) (ls : List Letter) (item : Item) (c : Cursor) (x : Expansion) :
    Prop where
  letters : x.letters = ls
  cursor : x.cursor = (e.replacements ls c).2
  references : x.references = (e.replacements ls c).1.flatMap fun r => r.reference.toList
  item : x.item = ((e.replacements ls c).1.foldl Item.note item).reword x.item.text
    x.item.tokenPosition x.item.tokenLength

/-- The search starts again at the left each time, but what lies before `rest` has been searched
already: either nothing is left to replace, or the first mark of `rest` is replaced, and what lies
before its end is done. -/
theorem expandFrom_succ {e : Expander} (he : e.CaretFree) (fuel : Nat) {item : Item} (c : Cursor)
    {done rest : Text} (hd : .char '^' ∉ done) (ht : item.text = done ++ rest) :
    (marks rest = [] ∧ expandFrom e (fuel + 1) item c = { item := item, cursor := c }) ∨
      ∃ before letter after, rest = before ++ .char '^' :: letter :: after ∧
        marks rest = letter :: marks after ∧
        let r := (e letter c).1
        let next := fill item (done ++ before) after r
        let x := expandFrom e fuel next (e letter c).2
        .char '^' ∉ done ++ before ++ r.text ∧ next.text = done ++ before ++ r.text ++ after ∧
          expandFrom e (fuel + 1) item c =
            { x with
              letters := letter :: x.letters
              references := r.reference.toList ++ x.references } := by
  have hsplit := splitMark_append rest hd
  rw [← ht] at hsplit
  cases hrest : splitMark rest with
  | none =>
      rw [hrest, Option.map_none] at hsplit
      exact .inl ⟨marks_of_splitMark_none hrest, by rw [expandFrom, hsplit]⟩
  | some found =>
      obtain ⟨before, letter, after⟩ := found
      rw [hrest, Option.map_some] at hsplit
      obtain ⟨hwhole, hb, hm⟩ := splitMark_eq_some hrest
      refine .inr ⟨before, letter, after, hwhole, hm, ?_, ?_, ?_⟩
      · simp [hd, hb, he letter c]
      · rw [fill_eq_note]
        rfl
      · rw [expandFrom, hsplit]

/-- Replacing goes on in what has not been searched yet. -/
theorem expandFrom_follows {e : Expander} (he : e.CaretFree) (fuel : Nat) {item : Item}
    (c : Cursor) {done rest : Text} (hd : .char '^' ∉ done) (ht : item.text = done ++ rest) :
    Follows e ((marks rest).take fuel) item c (expandFrom e fuel item c) := by
  induction fuel generalizing item c done rest with
  | zero => exact ⟨rfl, rfl, rfl, rfl⟩
  | succ fuel ih =>
      obtain ⟨hm, hstop⟩ | ⟨before, letter, after, -, hm, hdone, htext, hstep⟩ :=
        expandFrom_succ he fuel c hd ht
      · rw [hm, List.take_nil, hstop]
        exact ⟨rfl, rfl, rfl, rfl⟩
      · let r := (e letter c).1
        have hgo := ih (e letter c).2 hdone htext
        rw [hm, List.take_succ_cons, hstep]
        refine ⟨congrArg (letter :: ·) hgo.letters, hgo.cursor, ?_, ?_⟩
        · exact congrArg (r.reference.toList ++ ·) hgo.references
        · let rs := (e.replacements ((marks after).take fuel) (e letter c).2).1
          have hfill := fill_eq_note item (done ++ before) after r
          have hfold := (congrArg (rs.foldl Item.note) hfill).trans (foldl_note_reword rs _ _ _ _)
          refine hgo.item.trans ?_
          show (rs.foldl Item.note _).reword _ _ _ =
            (rs.foldl Item.note (item.note r)).reword _ _ _
          rw [hfold]
          rfl

theorem expand_follows {e : Expander} (he : e.CaretFree) (item : Item) (c : Cursor) :
    Follows e ((marks item.text).take maxMarks) item c (expand e item c) := by
  have hempty : Letter.char '^' ∉ ([] : Text) := by simp
  exact expandFrom_follows he maxMarks c hempty rfl

/-! ## Timings -/

/-- The timing of the pattern, if it has one, is made of numbers. -/
def timed (text : Text) : Bool := (parse text 0).isOk

theorem exists_parse {text : Text} (h : timed text = true) (timing : Int) :
    ∃ p, parse text timing = .ok p := by
  obtain ⟨⟨before, rest⟩, hcut⟩ : ∃ x, cut '|' text = x := ⟨_, rfl⟩
  cases rest with
  | none =>
      unfold parse
      rw [hcut]
      exact ⟨_, rfl⟩
  | some rest =>
      have hsame : parse text timing = parse text 0 := by
        unfold parse
        rw [hcut]
      rw [hsame]
      unfold timed at h
      cases hp : parse text 0 with
      | error fault =>
          rw [hp] at h
          cases h
      | ok p => exact ⟨p, rfl⟩

end Pattern

end RomListing

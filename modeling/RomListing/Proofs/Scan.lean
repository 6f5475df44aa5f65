import RomListing.Proofs.Tokens

/-! # One scan of a pattern

Marks are replaced one after another, and each search starts again at the left of the text that
the last replacement has changed. As long as no replacement holds a caret, that is one scan: the
text is read once from the left, the first marks are replaced, and everything else is copied.
-/

namespace RomListing.Pattern

/-- A mark that was replaced, with the number of characters written before it. -/
structure Substitution where
  letter : Letter
  replacement : Replacement
  position : Nat

structure Scan where
  text : Text
  substitutions : List Substitution
  cursor : Cursor

/-- Reads a text once. Up to `left` marks are replaced; what is no mark is copied, and so is the
rest once there have been that many. `written` characters stand before. -/
def scan (e : Expander) : Nat → Nat → Text → Cursor → Scan
  | left + 1, written, .char '^' :: letter :: rest, c =>
    let (r, c) := e letter c
    let s := scan e left (written + r.text.length) rest c
    { s with
      text := r.text ++ s.text
      substitutions := ⟨letter, r, written⟩ :: s.substitutions }
  | left, written, l :: rest, c =>
    let s := scan e left (written + 1) rest c
    { s with text := l :: s.text }
  | _, _, [], c => ⟨[], [], c⟩

def lastNamed (ts : List Substitution) : Option Substitution :=
  (ts.filter (·.replacement.named.isSome)).getLast?

/-- The expansion of an item that a scan comes to, when `done` stands before what was scanned. -/
def Scan.expansion (s : Scan) (item : Item) (done : Text) : Expansion :=
  let last := lastNamed s.substitutions
  { item := { item with
      text := done ++ s.text
      hasLabelSymbol := item.hasLabelSymbol || s.substitutions.any (·.replacement.isLabel)
      hasSymbol := item.hasSymbol || last.isSome
      symbolValue := last.bind (·.replacement.value) <|> item.symbolValue
      tokenPosition := last.map (fun t => (t.position : Int)) <|> item.tokenPosition
      tokenLength := last.map (fun t => (t.replacement.text.length : Int)) <|> item.tokenLength
      remark :=
        s.substitutions.foldl (fun remark t => t.replacement.remark <|> remark) item.remark }
    cursor := s.cursor
    letters := s.substitutions.map (·.letter)
    references := s.substitutions.flatMap (·.replacement.reference.toList) }

/-! ## Scanning what is no mark -/

section

variable (e : Expander) (written : Nat) (c : Cursor)

theorem scan_cons (left : Nat) {l : Letter} (h : l ≠ .char '^') (rest : Text) :
    scan e left written (l :: rest) c =
      let s := scan e left (written + 1) rest c
      { s with text := l :: s.text } := by
  rw [scan]
  intros
  contradiction

theorem scan_zero (t : Text) : scan e 0 written t c = ⟨t, [], c⟩ := by
  induction t generalizing written with
  | nil => rfl
  | cons l rest ih => simp [scan, ih]

theorem scan_append (left : Nat) {before : Text} (h : .char '^' ∉ before) (t : Text) :
    scan e left written (before ++ t) c =
      let s := scan e left (written + before.length) t c
      { s with text := before ++ s.text } := by
  induction before generalizing written with
  | nil => rfl
  | cons l before ih =>
      rw [List.mem_cons, not_or] at h
      have hcount : written + 1 + before.length = written + (l :: before).length := by
        rw [List.length_cons]
        omega
      rw [List.cons_append, scan_cons e written c left (Ne.symm h.1), ih (written + 1) h.2, hcount]
      rfl

theorem scan_unmarked (left : Nat) {t : Text} (h : marks t = []) :
    scan e left written t c = ⟨t, [], c⟩ := by
  induction t generalizing written with
  | nil => simp [scan]
  | cons l rest ih =>
      by_cases hl : l = .char '^'
      · subst hl
        cases rest with
        | nil => simp [scan]
        | cons letter rest => simp [marks] at h
      · rw [marks_cons rest hl] at h
        rw [scan_cons e written c left hl, ih (written + 1) h]

end

/-! ## The scan and the search -/

theorem lastNamed_cons_of_unnamed {t : Substitution} (h : t.replacement.named = none)
    (ts : List Substitution) : lastNamed (t :: ts) = lastNamed ts := by
  unfold lastNamed
  rw [List.filter_cons_of_neg (by simp [h])]

theorem lastNamed_cons_of_named {t : Substitution} {v : Int} (h : t.replacement.named = some v)
    (ts : List Substitution) : lastNamed (t :: ts) = some ((lastNamed ts).getD t) := by
  unfold lastNamed
  rw [List.filter_cons_of_pos (by simp [h]), List.getLast?_cons]

theorem named_of_lastNamed {ts : List Substitution} {t : Substitution}
    (h : lastNamed ts = some t) : t ∈ ts ∧ t.replacement.named.isSome = true :=
  List.mem_filter.1 (List.mem_of_getLast? h)

theorem value_of_named {r : Replacement} {v : Int} (h : r.named = some v) : r.value = some v := by
  unfold Replacement.named at h
  split at h
  · cases h
  · exact h

/-- When nothing is left to replace, the item is as it was. -/
theorem Scan.expansion_rest {item : Item} {done rest : Text} (h : item.text = done ++ rest)
    (c : Cursor) : Scan.expansion ⟨rest, [], c⟩ item done = { item := item, cursor := c } := by
  simp [expansion, lastNamed, ← h]

theorem Scan.expansion_before (s : Scan) (item : Item) (done before : Text) :
    Scan.expansion { s with text := before ++ s.text } item done =
      s.expansion item (done ++ before) := by
  simp [expansion]

/-- Replacing a mark and scanning on is scanning from the mark on. -/
theorem Scan.expansion_fill (s : Scan) (item : Item) (letter : Letter) (r : Replacement)
    (done after : Text) :
    let x := s.expansion (fill item done after r) (done ++ r.text)
    { x with letters := letter :: x.letters, references := r.reference.toList ++ x.references } =
      Scan.expansion ⟨r.text ++ s.text, ⟨letter, r, done.length⟩ :: s.substitutions, s.cursor⟩ item
        done := by
  let t : Substitution := ⟨letter, r, done.length⟩
  rw [fill_eq_note]
  cases hr : r.named with
  | none =>
      obtain ⟨hposition, hlength⟩ := fill_of_unnamed item hr done after
      have hlast : lastNamed (t :: s.substitutions) = lastNamed s.substitutions :=
        lastNamed_cons_of_unnamed hr _
      rw [hposition, hlength]
      simp [expansion, Item.reword, Item.note, hr, hlast, t, Bool.or_assoc]
  | some v =>
      obtain ⟨hposition, hlength⟩ := fill_of_named item hr done after
      have hvalue := value_of_named hr
      have hlast : lastNamed (t :: s.substitutions) =
          some ((lastNamed s.substitutions).getD t) := lastNamed_cons_of_named hr _
      rw [hposition, hlength]
      cases hlater : lastNamed s.substitutions with
      | none =>
          rw [hlater, Option.getD_none] at hlast
          simp [expansion, Item.reword, Item.note, hr, hlast, hlater, hvalue, t, Bool.or_assoc]
      | some later =>
          rw [hlater, Option.getD_some] at hlast
          obtain ⟨w, hw⟩ := Option.isSome_iff_exists.1 (named_of_lastNamed hlater).2
          have hvalue' := value_of_named hw
          simp [expansion, Item.reword, Item.note, hr, hlast, hlater, hvalue', t, Bool.or_assoc]

/-- The search that starts again at the left each time is a scan of what has not been searched. -/
theorem expandFrom_scans {e : Expander} (he : e.CaretFree) (fuel : Nat) {item : Item} (c : Cursor)
    {done rest : Text} (hd : .char '^' ∉ done) (ht : item.text = done ++ rest) :
    expandFrom e fuel item c = (scan e fuel done.length rest c).expansion item done := by
  induction fuel generalizing item c done rest with
  | zero => rw [scan_zero, Scan.expansion_rest ht, expandFrom]
  | succ fuel ih =>
      obtain ⟨hm, hend⟩ | ⟨before, letter, after, hrest, -, hdone, htext, hstep⟩ :=
        expandFrom_succ he fuel c hd ht
      · rw [scan_unmarked e done.length c (fuel + 1) hm, Scan.expansion_rest ht, hend]
      · have hbefore : .char '^' ∉ before := fun hmem => hdone (by simp [hmem])
        have hwritten : (done ++ before ++ (e letter c).1.text).length =
            (done ++ before).length + (e letter c).1.text.length := List.length_append
        have hat : done.length + before.length = (done ++ before).length :=
          List.length_append.symm
        rw [hstep, ih (e letter c).2 hdone htext, hwritten, hrest,
          scan_append e done.length c (fuel + 1) hbefore, Scan.expansion_before, hat]
        exact Scan.expansion_fill _ item letter (e letter c).1 (done ++ before) after

/-- The token of an expansion is the last replacement that names a number. -/
theorem Scan.expansion_token {s : Scan} {t : Substitution} (h : lastNamed s.substitutions = some t)
    (item : Item) (done : Text) :
    let x := (s.expansion item done).item
    ∃ v, t.replacement.named = some v ∧ x.hasSymbol = true ∧ x.symbolValue = some v ∧
      x.tokenPosition = some (t.position : Int) ∧
      x.tokenLength = some (t.replacement.text.length : Int) := by
  obtain ⟨v, hv⟩ := Option.isSome_iff_exists.1 (named_of_lastNamed h).2
  have hvalue := value_of_named hv
  exact ⟨v, hv, by simp [expansion, h, hvalue]⟩

/-- Each replacement stands in the finished text where it was written. -/
theorem scan_slices (e : Expander) (left written : Nat) (text : Text) (c : Cursor) :
    let s := scan e left written text c
    ∀ t ∈ s.substitutions, ∃ before after, s.text = before ++ t.replacement.text ++ after ∧
      t.position = written + before.length := by
  fun_induction scan e left written text c with
  | case1 left written letter rest c r c' hr s ih =>
      intro whole t ht
      rcases List.mem_cons.1 ht with rfl | ht
      · exact ⟨[], s.text, rfl, rfl⟩
      · obtain ⟨before, after, htext, hposition⟩ := ih t ht
        refine ⟨r.text ++ before, after, ?_, ?_⟩
        · show r.text ++ s.text = _
          rw [htext]
          simp only [List.append_assoc]
        · rw [hposition, List.length_append, Nat.add_assoc]
  | case2 left written l rest c hmark s ih =>
      intro whole t ht
      obtain ⟨before, after, htext, hposition⟩ := ih t ht
      refine ⟨l :: before, after, ?_, ?_⟩
      · show l :: s.text = _
        rw [htext]
        simp only [List.cons_append]
      · rw [hposition, List.length_cons]
        omega
  | case3 =>
      intro whole t ht
      cases ht

/-- A character that a scan copies starts no mark, or no mark may be replaced any more. -/
theorem copied_cases {left : Nat} {l : Letter} {rest : Text}
    (h : ∀ n letter more, left = n + 1 → l = .char '^' → rest = letter :: more → False) :
    l ≠ .char '^' ∨ l = .char '^' ∧ (rest = [] ∨ left = 0) := by
  by_cases hl : l = .char '^'
  · refine .inr ⟨hl, ?_⟩
    cases rest with
    | nil => exact .inl rfl
    | cons letter more =>
        cases left with
        | zero => exact .inr rfl
        | succ n => exact (h n letter more rfl hl rfl).elim
  · exact .inl hl

theorem scan_letters (e : Expander) (left written : Nat) (text : Text) (c : Cursor) :
    (scan e left written text c).substitutions.map (·.letter) = (marks text).take left := by
  fun_induction scan e left written text c with
  | case1 left written letter rest c r c' hr s ih => simp [marks, s, ih]
  | case2 left written l rest c hmark s ih =>
      obtain hl | ⟨rfl, rfl | rfl⟩ := copied_cases hmark
      · rw [marks_cons rest hl]
        exact ih
      · simp [s, scan, marks]
      · simp [s, scan_zero]
  | case3 => simp [marks]

/-- What was written for a mark is what the expander gave for its letter. -/
theorem scan_answers (e : Expander) (left written : Nat) (text : Text) (c : Cursor) :
    ∀ t ∈ (scan e left written text c).substitutions, ∃ d, t.replacement = (e t.letter d).1 := by
  fun_induction scan e left written text c with
  | case1 left written letter rest c r c' hr s ih =>
      intro t ht
      rcases List.mem_cons.1 ht with rfl | ht
      · exact ⟨c, by rw [hr]⟩
      · exact ih t ht
  | case2 left written l rest c hmark s ih => exact ih
  | case3 =>
      intro t ht
      cases ht

/-! ## Expanders -/

/-- The expander that gives these answers one after another, whatever it is asked. It counts them
in the opcode. -/
def inTurn (answers : List Replacement) : Expander := fun _ c =>
  (answers.getD c.opcode.toNat { text := [] }, { c with opcode := c.opcode + 1 })

theorem caretFree_inTurn {answers : List Replacement} (h : ∀ r ∈ answers, .char '^' ∉ r.text) :
    (inTurn answers).CaretFree := by
  intro letter c
  show .char '^' ∉ (answers.getD c.opcode.toNat { text := [] }).text
  rw [List.getD_eq_getElem?_getD]
  cases hr : answers[c.opcode.toNat]? with
  | none => simp
  | some r => exact h r (List.mem_of_getElem? hr)

/-- Replacing marks, with a new search after each, is one scan of the text, for an expander whose
replacements hold no caret: the first four marks are replaced and all else is copied, the letters
are asked for in their order, and the token is the last replacement that names a number. -/
theorem expand_scans {e : Expander} (he : e.CaretFree) (item : Item) (c : Cursor) :
    let x := expand e item c
    let s := scan e maxMarks 0 item.text c
    x.item.text = s.text ∧
      x.letters = s.substitutions.map (·.letter) ∧
      x.letters = (marks item.text).take maxMarks ∧
      x.references = s.substitutions.flatMap (·.replacement.reference.toList) ∧
      x.cursor = s.cursor ∧
      (x.item.hasLabelSymbol = true ↔
        item.hasLabelSymbol = true ∨ ∃ t ∈ s.substitutions, t.replacement.isLabel = true) ∧
      match lastNamed s.substitutions with
      | none => x.item.hasSymbol = item.hasSymbol ∧ x.item.symbolValue = item.symbolValue ∧
          x.item.tokenPosition = item.tokenPosition ∧ x.item.tokenLength = item.tokenLength
      | some t => x.item.hasSymbol = true ∧ x.item.symbolValue = t.replacement.value ∧
          x.item.tokenPosition = some (t.position : Int) ∧
          x.item.tokenLength = some (t.replacement.text.length : Int) ∧
          (x.item.text.drop t.position).take t.replacement.text.length = t.replacement.text := by
  intro x s
  have hnone : Letter.char '^' ∉ ([] : Text) := by simp
  have hx : x = s.expansion item [] := expandFrom_scans he maxMarks c hnone rfl
  have hletters : x.letters = s.substitutions.map (·.letter) := by
    rw [hx]
    rfl
  refine ⟨by rw [hx]; rfl, hletters, hletters.trans (scan_letters e maxMarks 0 item.text c),
    by rw [hx]; rfl, by rw [hx]; rfl, ?_, ?_⟩
  · rw [hx]
    simp [Scan.expansion]
  · cases hlast : lastNamed s.substitutions with
    | none => simp [hx, Scan.expansion, hlast]
    | some t =>
        obtain ⟨v, hv, hsymbol, hvalue, hposition, hlength⟩ := Scan.expansion_token hlast item []
        obtain ⟨before, after, htext, hbefore⟩ :=
          scan_slices e maxMarks 0 item.text c t (named_of_lastNamed hlast).1
        rw [hx]
        refine ⟨hsymbol, hvalue.trans (value_of_named hv).symm, hposition, hlength, ?_⟩
        show (s.text.drop t.position).take t.replacement.text.length = t.replacement.text
        rw [hbefore, Nat.zero_add, htext, List.append_assoc, List.drop_left, List.take_left]

theorem expand_scans_five_marks :
    let e := inTurn [{ text := Text.ofString "$10", value := some 0x10 },
      { text := Text.ofString "L0020", value := some 0x20, isLabel := true },
      { text := [], value := some 5 }, { text := Text.ofString "x" }]
    let x := expand e { address := 0, text := Text.ofString "op ^a,^^(^c)^d^e^" } { offset := 0 }
    e.CaretFree ∧ x.item.text = Text.ofString "op $10,L0020()x^e^" ∧
      x.letters = Text.ofString "a^cd" ∧ x.item.hasLabelSymbol = true ∧
      x.item.symbolValue = some 0x20 ∧ x.item.tokenPosition = some 7 ∧
      x.item.tokenLength = some 5 := by
  intro e x
  have he : e.CaretFree := caretFree_inTurn (by decide)
  obtain ⟨htext, hletters, -, -, -, hlabel, -, hvalue, hposition, hlength, -⟩ := expand_scans he
    { address := 0, text := Text.ofString "op ^a,^^(^c)^d^e^" } { offset := 0 }
  exact ⟨he, htext, hletters, hlabel.2 (.inr ⟨_, .tail _ (.head _), rfl⟩), hvalue, hposition,
    hlength⟩

end RomListing.Pattern

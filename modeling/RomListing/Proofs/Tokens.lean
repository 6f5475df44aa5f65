import RomListing.Proofs.Processor

/-! # The token of an instruction

The token of an item is the word in its text that stands for its symbol. It is set when a mark is
replaced, by counting from the left, and everything replaced later lies to the right of it. So it
still marks its word in the finished text: the last replacement that names a number, and of an
instruction that uses a label the name of the label.
-/

namespace RomListing

/-- The token of the item is this word of its text. -/
def Item.Points (item : Item) (word : Text) : Prop :=
  ∃ before after, item.text = before ++ word ++ after ∧
    item.tokenPosition = some before.length ∧ item.tokenLength = some word.length

def Item.token? (item : Item) : Option Text :=
  match item.tokenPosition, item.tokenLength with
  | some position, some length => some ((item.text.drop position.toNat).take length.toNat)
  | _, _ => none

theorem Item.Points.token? {item : Item} {word : Text} (h : item.Points word) :
    item.token? = some word := by
  obtain ⟨before, after, htext, hposition, hlength⟩ := h
  unfold Item.token?
  rw [hposition, hlength, htext]
  simp

namespace Pattern

/-! ## Expansions -/

theorem fill_of_unnamed (item : Item) {r : Replacement} (h : r.named = none) (before after : Text) :
    (fill item before after r).tokenPosition = item.tokenPosition ∧
      (fill item before after r).tokenLength = item.tokenLength := by
  unfold Replacement.named at h
  unfold fill
  cases hv : r.value with
  | none => exact ⟨rfl, rfl⟩
  | some v =>
      rw [hv] at h
      cases hempty : r.text.isEmpty with
      | true => exact ⟨rfl, rfl⟩
      | false => simp [hempty] at h

theorem fill_of_named (item : Item) {r : Replacement} {v : Int} (h : r.named = some v)
    (before after : Text) :
    (fill item before after r).tokenPosition = some before.length ∧
      (fill item before after r).tokenLength = some r.text.length := by
  unfold Replacement.named at h
  unfold fill
  split at h
  · cases h
  · rename_i hempty
    rw [h]
    simp [hempty]

def namedOnes (rs : List Replacement) : List Replacement := rs.filter (·.named.isSome)

theorem namedOnes_cons_of_unnamed {r : Replacement} (h : r.named = none)
    (rs : List Replacement) : namedOnes (r :: rs) = namedOnes rs :=
  List.filter_cons_of_neg (by simp [h])

theorem namedOnes_cons_of_named {r : Replacement} {v : Int} (h : r.named = some v)
    (rs : List Replacement) : namedOnes (r :: rs) = r :: namedOnes rs :=
  List.filter_cons_of_pos (by simp [h])

/-- What is done stays, and the token is the last replacement that names a number, or what it was
before if none does. -/
theorem expandFrom_token {e : Expander} (he : e.CaretFree) (fuel : Nat) {item : Item} (c : Cursor)
    {done rest : Text} (hd : .char '^' ∉ done) (ht : item.text = done ++ rest) :
    let x := expandFrom e fuel item c
    let named := namedOnes (e.replacements ((marks rest).take fuel) c).1
    (∃ tail, x.item.text = done ++ tail) ∧
      ((named = [] ∧ x.item.tokenPosition = item.tokenPosition ∧
          x.item.tokenLength = item.tokenLength) ∨
        ∃ r, named.getLast? = some r ∧ x.item.Points r.text) := by
  induction fuel generalizing item c done rest with
  | zero => exact ⟨⟨rest, ht⟩, .inl ⟨rfl, rfl, rfl⟩⟩
  | succ fuel ih =>
      obtain ⟨hm, hstop⟩ | ⟨before, letter, after, -, hm, hdone, htext, hstep⟩ :=
        expandFrom_succ he fuel c hd ht
      · rw [hm, List.take_nil, hstop]
        exact ⟨⟨rest, ht⟩, .inl ⟨rfl, rfl, rfl⟩⟩
      · let r := (e letter c).1
        let rs := (e.replacements ((marks after).take fuel) (e letter c).2).1
        have hrs : (e.replacements ((marks rest).take (fuel + 1)) c).1 = r :: rs := by
          rw [hm, List.take_succ_cons]
          rfl
        obtain ⟨⟨tail, htail⟩, htoken⟩ := ih (e letter c).2 hdone htext
        rw [hstep, hrs]
        refine ⟨⟨before ++ r.text ++ tail, by simp only [htail, List.append_assoc, r]⟩, ?_⟩
        cases hr : r.named with
        | none =>
            obtain ⟨hposition, hlength⟩ := fill_of_unnamed item hr (done ++ before) after
            rw [namedOnes_cons_of_unnamed hr]
            rwa [hposition, hlength] at htoken
        | some v =>
            obtain ⟨hposition, hlength⟩ := fill_of_named item hr (done ++ before) after
            rw [namedOnes_cons_of_named hr]
            refine .inr ?_
            rcases htoken with ⟨hnone, hposition', hlength'⟩ | ⟨r', hlast, hpoints⟩
            · refine ⟨r, by rw [hnone]; rfl, done ++ before, tail, htail, ?_, ?_⟩
              · exact hposition'.trans hposition
              · exact hlength'.trans hlength
            · exact ⟨r', by rw [List.getLast?_cons, hlast, Option.getD_some], hpoints⟩

end Pattern

/-! ## Instructions -/

namespace InstructionSet

variable {cpu : InstructionSet} {a : Alphabet} {longest : Nat}

def replacements (cpu : InstructionSet) (s : Setting) (c : Cursor) : List Replacement :=
  ((cpu.expand s).replacements (Pattern.marks (cpu.select s c.begin).pattern.text)
    (cpu.select s c.begin).cursor).1

/-- The token of an instruction is its last replacement that names a number. -/
theorem Sound.decode_token (h : cpu.Sound a longest) (s : Setting) (c : Cursor) :
    let item := (cpu.decode s c).item
    let named := Pattern.namedOnes (cpu.replacements s c)
    (named = [] ∧ item.tokenPosition = none ∧ item.tokenLength = none) ∨
      ∃ r, named.getLast? = some r ∧ item.Points r.text := by
  rw [cpu.decode_eq]
  unfold replacements
  obtain ⟨hempty, hx⟩ | ⟨hdraft, hmarks, hx⟩ := h.expansion_cases s c
  · rw [hempty, hx]
    exact .inl ⟨rfl, rfl, rfl⟩
  · have hnone : Letter.char '^' ∉ ([] : Text) := by simp
    have htoken := (Pattern.expandFrom_token (h.describes s).caretFree Pattern.maxMarks
      (cpu.select s c.begin).cursor hnone hdraft).2
    rw [hx]
    rwa [hmarks] at htoken

end InstructionSet

/-! ## Labels -/

def Expander.NamesLabels (e : Expander) (o : Options) : Prop :=
  ∀ letter c v, (e letter c).1.isLabel = true → (e letter c).1.named = some v →
    (e letter c).1.text = o.labelName v

/-- The item has no symbol that is a label, or its token is the name of the label. -/
def Item.NamesLabel (item : Item) (o : Options) : Prop :=
  item.hasLabelSymbol = true → ∃ v, item.symbolValue = some v ∧ item.Points (o.labelName v)

theorem Operand.label_text {s : Setting} {c : Cursor} {address v : Int}
    (h : (label s c address).named = some v) :
    (label s c address).text = s.options.labelName v := by
  unfold Replacement.named at h
  split at h
  · cases h
  · cases h
    rfl

theorem Z80.namesLabels (s : Setting) : (expand s).NamesLabels s.options := by
  intro letter c v hlabel hnamed
  unfold expand at *
  dsimp only at *
  split at hlabel
  case h_2 | h_4 => exact Operand.label_text hnamed
  all_goals cases hlabel

theorem Mos6502.namesLabels (s : Setting) : (expand s).NamesLabels s.options := by
  intro letter c v hlabel hnamed
  unfold expand at *
  dsimp only at *
  split at hlabel
  case h_11 | h_12 => exact Operand.label_text hnamed
  all_goals cases hlabel

theorem Processor.namesLabels (q : Processor) (s : Setting) :
    (q.instructionSet.expand s).NamesLabels s.options := by
  cases q with
  | z80 => exact Z80.namesLabels s
  | mos6502 => exact Mos6502.namesLabels s

/-- An instruction that uses a label has one mark, so that the name of the label is its token. -/
theorem InstructionSet.Sound.decode_namesLabel {cpu : InstructionSet} {a : Alphabet}
    {longest : Nat} (h : cpu.Sound a longest) {s : Setting}
    (hn : (cpu.expand s).NamesLabels s.options) (c : Cursor) :
    (cpu.decode s c).item.NamesLabel s.options := by
  intro hsymbol
  obtain ⟨n, -, -, -, hfits⟩ := h.selects s c.begin
  have hfollows := h.expansion_follows s c
  have hnoted : (cpu.decode s c).item.hasLabelSymbol =
      ((cpu.replacements s c).foldl Item.note (cpu.draft s c)).hasLabelSymbol := by
    rw [cpu.decode_eq]
    show (cpu.expansion s c).item.hasLabelSymbol = _
    rw [hfollows.item]
    rfl
  have hvalue : (cpu.decode s c).item.symbolValue =
      ((cpu.replacements s c).foldl Item.note (cpu.draft s c)).symbolValue := by
    rw [cpu.decode_eq]
    show (cpu.expansion s c).item.symbolValue = _
    rw [hfollows.item]
    rfl
  have htoken := h.decode_token s c
  have hsilent {ls : List Letter} (hls : Pattern.marks (cpu.select s c.begin).pattern.text = ls)
      (hl : ∀ l ∈ ls, a.isLabel l = false) : False := by
    have hplain : ∀ r ∈ cpu.replacements s c, r.isLabel = false := by
      unfold replacements
      rw [hls]
      exact fun r hr => ((h.describes s).replacements_silent hl _ r hr).2
    rw [hnoted, foldl_note_silent hplain] at hsymbol
    cases hsymbol
  rcases (Alphabet.allows_iff.1 hfits.allows).2.2 with hnone | ⟨l, hone⟩
  · exact (hsilent rfl hnone).elim
  · let r := (cpu.expand s l (cpu.select s c.begin).cursor).1
    have hrs : cpu.replacements s c = [r] := by
      unfold replacements
      rw [hone]
      rfl
    cases hl : a.isLabel l with
    | false => exact (hsilent hone (by simpa using hl)).elim
    | true =>
        obtain ⟨target, hlabel, hnamed, -⟩ := ((h.describes s).acts l _).refers hl
        have hlast : Pattern.namedOnes (cpu.replacements s c) = [r] := by
          rw [hrs]
          exact Pattern.namedOnes_cons_of_named hnamed []
        refine ⟨target, ?_, ?_⟩
        · rw [hvalue, hrs]
          simp [Item.note, r, hnamed]
        · rw [hlast] at htoken
          rcases htoken with ⟨hnil, -⟩ | ⟨r', hr', hpoints⟩
          · cases hnil
          · have hname : r'.text = s.options.labelName target := by
              rw [← Option.some.inj hr']
              exact hn l _ target hlabel hnamed
            rwa [hname] at hpoints

end RomListing

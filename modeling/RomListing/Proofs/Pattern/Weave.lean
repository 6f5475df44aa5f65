import RomListing.Proofs.Pattern.Marks

/-! # Replacements woven into a pattern

The text of an instruction is its pattern with the replacements where the marks were. Most
replacements are known beforehand, and the others can be told from the text: where two of them
stand in one pattern, the first is followed by a character that none of them holds.
-/

namespace RomListing.Pattern

/-! ## Weaving -/

/-- The text with its marks replaced from the left, as far as there are replacements. -/
def weave : Text → List Text → Text
  | .char '^' :: _ :: rest, r :: rs => r ++ weave rest rs
  | l :: rest, rs => l :: weave rest rs
  | [], _ => []

@[simp] theorem weave_nil (t : Text) : weave t [] = t := by
  induction t with
  | nil => rfl
  | cons l rest ih => rw [weave, ih]; simp

theorem weave_cons {l : Letter} (h : l ≠ .char '^') (rest : Text) (rs : List Text) :
    weave (l :: rest) rs = l :: weave rest rs := by
  rw [weave]
  intros
  contradiction

theorem weave_append {before : Text} (h : .char '^' ∉ before) (t : Text) (rs : List Text) :
    weave (before ++ t) rs = before ++ weave t rs := by
  induction before with
  | nil => rfl
  | cons l before ih =>
      rw [List.mem_cons, not_or] at h
      rw [List.cons_append, weave_cons (Ne.symm h.1), ih h.2, List.cons_append]

/-- Replacing marks one after another weaves the replacements into what has not been searched
yet. -/
theorem expandFrom_text {e : Expander} (he : e.CaretFree) (fuel : Nat) {item : Item} (c : Cursor)
    {done rest : Text} (hd : .char '^' ∉ done) (ht : item.text = done ++ rest) :
    (expandFrom e fuel item c).item.text =
      done ++ weave rest ((e.replacements ((marks rest).take fuel) c).1.map (·.text)) := by
  induction fuel generalizing item c done rest with
  | zero => simpa [expandFrom, Expander.replacements] using ht
  | succ fuel ih =>
      obtain ⟨hm, hstop⟩ | ⟨before, letter, after, hrest, hm, hdone, htext, hstep⟩ :=
        expandFrom_succ he fuel c hd ht
      · simpa [hstop, hm, Expander.replacements] using ht
      · have hbefore : .char '^' ∉ before := fun hmem => hdone (by simp [hmem])
        have hgo := ih (e letter c).2 hdone htext
        rw [hm, List.take_succ_cons, hstep, hrest, weave_append hbefore]
        simpa only [Expander.replacements, List.map_cons, weave, List.append_assoc] using hgo

/-! ## Telling replacements apart -/

section

variable (varies closes : Letter → Bool)

/-- Behind a replacement that varies stands a character that closes it, or no other one
follows. -/
def closed (rest : Text) : Bool := (marks rest).all (!varies ·) || rest.head?.any closes

def separated : Text → Bool
  | .char '^' :: letter :: rest =>
    (!varies letter || closed varies closes rest) && separated rest
  | _ :: rest => separated rest
  | [] => true

/-- Replacements for the same letters. Those that may differ hold no character that closes
them. -/
inductive Rivals : List Letter → List Text → List Text → Prop
  | nil : Rivals [] [] []
  | fixed {letter letters r rs rs'} (rest : Rivals letters rs rs') :
      Rivals (letter :: letters) (r :: rs) (r :: rs')
  | varying {letter letters r r' rs rs'} (hvaries : varies letter = true)
      (hleft : ∀ l ∈ r, closes l = false) (hright : ∀ l ∈ r', closes l = false)
      (rest : Rivals letters rs rs') : Rivals (letter :: letters) (r :: rs) (r' :: rs')

end

variable {varies closes : Letter → Bool}

theorem Rivals.eq_of_fixed {letters : List Letter} {rs rs' : List Text}
    (h : Rivals varies closes letters rs rs') (hfixed : letters.all (!varies ·) = true) :
    rs = rs' := by
  induction h with
  | nil => rfl
  | fixed _ ih => rw [ih (by simp_all)]
  | varying hvaries => simp [hvaries] at hfixed

/-- What stands in front of the first character that closes can be told from the text. -/
theorem takeWhile_of_closes {r : Text} (hr : ∀ l ∈ r, closes l = false) {l : Letter}
    (hl : closes l = true) (t : Text) : (r ++ l :: t).takeWhile (!closes ·) = r := by
  have hopen : ∀ l ∈ r, (!closes l) = true := by simpa using hr
  rw [List.takeWhile_append_of_pos hopen, List.takeWhile_cons_of_neg (by simp [hl]),
    List.append_nil]

/-- The replacements can be told from the text that they were woven into. -/
theorem weave_inj (hcaret : closes (.char '^') = false) {t : Text} {rs rs' : List Text}
    (ht : separated varies closes t = true) (hrs : Rivals varies closes (marks t) rs rs')
    (h : weave t rs = weave t rs') : rs = rs' := by
  fun_induction separated varies closes t generalizing rs rs' with
  | case1 letter rest ih =>
      obtain ⟨hclosed, hrest⟩ := Bool.and_eq_true_iff.1 ht
      have hmarks : marks (.char '^' :: letter :: rest) = letter :: marks rest := if_pos rfl
      rw [hmarks] at hrs
      cases hrs with
      | fixed htail => rw [ih hrest htail (List.append_cancel_left h)]
      | @varying _ _ r r' rs rs' hvaries hleft hright htail =>
          rw [hvaries, Bool.not_true, Bool.false_or] at hclosed
          change r ++ weave rest rs = r' ++ weave rest rs' at h
          rcases Bool.or_eq_true_iff.1 hclosed with hlast | hnext
          · obtain rfl := htail.eq_of_fixed hlast
            rw [List.append_cancel_right h]
          · obtain ⟨l, hl, hcloses⟩ := (Option.any_eq_true _ _).1 hnext
            obtain ⟨behind, rfl⟩ := List.head?_eq_some_iff.1 hl
            have hl : l ≠ .char '^' := by
              rintro rfl
              simp [hcaret] at hcloses
            have hfront := h
            rw [weave_cons hl, weave_cons hl] at hfront
            obtain rfl : r = r' := by
              rw [← takeWhile_of_closes hleft hcloses, hfront,
                takeWhile_of_closes hright hcloses]
            rw [ih hrest htail (List.append_cancel_left h)]
  | case2 l rest hmark ih =>
      by_cases hl : l = .char '^'
      · subst hl
        obtain rfl : rest = [] := by
          cases rest with
          | nil => rfl
          | cons letter rest => exact absurd rfl (hmark letter rest rfl)
        cases hrs
        rfl
      · rw [marks_cons _ hl] at hrs
        rw [weave_cons hl, weave_cons hl] at h
        exact ih ht hrs (List.cons_inj_right _ |>.1 h)
  | case3 =>
      cases hrs
      rfl

end RomListing.Pattern

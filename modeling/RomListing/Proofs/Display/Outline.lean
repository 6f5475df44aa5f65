import Mathlib.Data.List.Forall2
import RomListing.Proofs.Output.Flags

/-! # Outlines

Two options decide about words alone: whether numbers are written in decimal, and what stands before
the name of a label. An outline is what they leave as it is. Of an item it has everything but its
text; of its token and its remark it has that they are there. The edits of an output go by outlines,
so that outputs with the same outline keep to it.
-/

namespace RomListing

/-! ## Options -/

def Options.display (o : Options) (decimal bareLabels : Bool) : Options :=
  { o with decimal := decimal, bareLabels := bareLabels }

def Setting.display (s : Setting) (decimal bareLabels : Bool) : Setting :=
  { s with options := s.options.display decimal bareLabels }

/-! ## Items -/

def Item.outline (item : Item) : Item :=
  { item with
    text := []
    tokenPosition := item.tokenPosition.map fun _ => 0
    tokenLength := item.tokenLength.map fun _ => 0
    remark := item.remark.map fun _ => [] }

/-- The items are the same but for their text, where their token is and what their remark says. If
one has a token or a remark, so has the other. -/
structure Item.Rewords (i j : Item) : Prop where
  rest : j = { i with
    text := j.text
    tokenPosition := j.tokenPosition
    tokenLength := j.tokenLength
    remark := j.remark }
  position : j.tokenPosition.isSome = i.tokenPosition.isSome
  length : j.tokenLength.isSome = i.tokenLength.isSome
  remark : j.remark.isSome = i.remark.isSome

theorem map_const_eq_iff {α β : Type} (b : β) (x y : Option α) :
    x.map (fun _ => b) = y.map (fun _ => b) ↔ x.isSome = y.isSome := by
  cases x <;> cases y <;> simp

/-- Items with the same outline differ in their wording alone. -/
theorem Item.rewords_iff {i j : Item} : i.Rewords j ↔ j.outline = i.outline := by
  constructor
  · rintro ⟨hrest, hposition, hlength, hremark⟩
    rw [hrest]
    unfold outline
    dsimp only
    rw [(map_const_eq_iff _ _ _).2 hposition, (map_const_eq_iff _ _ _).2 hlength,
      (map_const_eq_iff _ _ _).2 hremark]
  · intro h
    cases i
    cases j
    simp only [outline, Item.mk.injEq, map_const_eq_iff, true_and] at h
    obtain ⟨rfl, rfl, rfl, rfl, rfl, rfl, rfl, hposition, hlength, rfl, hremark, rfl, rfl, rfl⟩ := h
    exact ⟨rfl, hposition, hlength, hremark⟩

/-! ## Outputs -/

namespace Output

def outline (o : Output) : Output := { o with items := o.items.map Item.outline }

theorem outline_add (o : Output) (item : Item) :
    (o.add item).outline = o.outline.add item.outline := by
  simp [outline, add]

theorem outline_addAll (o : Output) (items : List Item) :
    (o.addAll items).outline = o.outline.addAll (items.map Item.outline) := by
  unfold addAll
  induction items generalizing o with
  | nil => rfl
  | cons item items ih =>
      rw [List.foldl_cons, ih, outline_add, List.map_cons, List.foldl_cons]

theorem outline_refer (o : Output) (rs : List Reference) :
    (o.refer rs).outline = o.outline.refer rs := by
  unfold refer
  induction rs generalizing o with
  | nil => rfl
  | cons r rs ih => exact ih (o.createLabel r.target (some r.source))

/-- Flags go by addresses. -/
theorem flag_outline (wanted : Std.TreeSet Int) (items : List Item) :
    flag wanted (items.map Item.outline) =
      ((flag wanted items).1.map Item.outline, (flag wanted items).2) := by
  induction items with
  | nil => rfl
  | cons item items ih =>
      have haddress : item.outline.address = item.address := rfl
      rw [List.map_cons, flag_cons, flag_cons, ih, haddress]
      dsimp only
      split <;> rfl

theorem outline_fixup (o : Output) : o.fixup.outline = o.outline.fixup := by
  have hlabels : o.outline.labels = o.labels := rfl
  have hitems : o.outline.items.toList = o.items.toList.map Item.outline := Array.toList_map
  unfold fixup
  rw [hlabels, hitems, flag_outline]
  split
  · rfl
  · simp [outline]

/-- Outputs with the same outline have the same labels, and their items differ in wording alone. -/
theorem outline_eq_iff {o o' : Output} : o'.outline = o.outline ↔
    List.Forall₂ Item.Rewords o.items.toList o'.items.toList ∧ o'.labels = o.labels := by
  have hrewords : Item.Rewords = fun i j => i.outline = j.outline := by
    funext i j
    exact propext (Item.rewords_iff.trans eq_comm)
  have hitems : List.Forall₂ Item.Rewords o.items.toList o'.items.toList ↔
      o.items.toList.map Item.outline = o'.items.toList.map Item.outline := by
    rw [hrewords, ← List.forall₂_map_right_iff, ← List.forall₂_map_left_iff, List.forall₂_eq_eq_eq]
  have harrays : o'.items.map Item.outline = o.items.map Item.outline ↔
      o.items.toList.map Item.outline = o'.items.toList.map Item.outline := by
    rw [← Array.toList_inj, Array.toList_map, Array.toList_map, eq_comm]
  show Output.mk _ _ = Output.mk _ _ ↔ _
  rw [Output.mk.injEq, harrays, hitems]

end Output

end RomListing

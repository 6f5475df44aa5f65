import RomListing.Project.Run

/-! # The remarks of a project

Remarks are put in when the pass is over. They change the remarks of items and nothing else: what
one sees of the items without looking at their remarks stays as it was.
-/

namespace RomListing

/-- A view that does not tell an item from what is put in its place does not tell the outputs
apart. -/
theorem Output.map_modify {β : Type} {g : Item → β} {f : Item → Item} (hf : ∀ i, g (f i) = g i)
    (o : Output) (x : Int) : (o.modify x f).items.toList.map g = o.items.toList.map g := by
  unfold modify
  simp only
  induction o.items.toList with
  | nil => rfl
  | cons i is ih =>
      rw [List.foldr_cons]
      split
      · simpa using ih
      · simpa [hf i] using ih

namespace Project

variable (p : Project)

theorem map_applyComments {β : Type} {g : Item → β}
    (hg : ∀ item text, g { item with comment := some text } = g item) (o : Output) :
    (p.applyComments o).items.toList.map g = o.items.toList.map g := by
  unfold applyComments
  induction p.comments generalizing o with
  | nil => rfl
  | cons c cs ih =>
      rw [List.foldl_cons, ih]
      exact Output.map_modify (fun item => hg item c.2) o (wrap c.1)

theorem labels_applyComments (o : Output) : (p.applyComments o).labels = o.labels := by
  unfold applyComments
  induction p.comments generalizing o with
  | nil => rfl
  | cons c cs ih => exact ih _

end Project

end RomListing

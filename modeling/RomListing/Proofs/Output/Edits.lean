import RomListing.Proofs.Output.Growth

/-! # Edits of an output

All that a pass does to its output comes to three edits. What they add to the lines, to the
labels and to the references of a label does not depend on the output that is edited: it is put
behind what is there. Two outputs that are edited alike therefore grow by the same, and outputs
that were equal stay equal, their flags included.
-/

namespace RomListing

namespace Output

inductive Edit where
  | add (items : List Item)
  | refer (rs : List Reference)
  | fixup

def Edit.apply (o : Output) : Edit → Output
  | .add items => o.addAll items
  | .refer rs => o.refer rs
  | .fixup => o.fixup

def edit (o : Output) (es : List Edit) : Output := es.foldl Edit.apply o

theorem edit_append (o : Output) (es fs : List Edit) : o.edit (es ++ fs) = (o.edit es).edit fs :=
  List.foldl_append

/-! ## Lines -/

theorem lines_addAll (o : Output) (items : List Item) :
    (o.addAll items).lines = o.lines ++ items.map Item.plain := by
  unfold addAll
  induction items generalizing o with
  | nil => simp
  | cons item items ih =>
      have hone : (o.add item).lines = o.lines ++ [item.plain] := by simp [lines, add]
      rw [List.foldl_cons, ih, hone, List.map_cons, List.append_assoc, List.singleton_append]

theorem lines_addAll_of_plain (o : Output) {items : List Item}
    (h : ∀ item ∈ items, item.hasLabel = false) : (o.addAll items).lines = o.lines ++ items := by
  have hplain : items.map Item.plain = items :=
    (List.map_congr_left fun item hi => Item.plain_of_hasLabel (h item hi)).trans (List.map_id _)
  rw [lines_addAll, hplain]

theorem lines_refer (o : Output) (rs : List Reference) : (o.refer rs).lines = o.lines := by
  unfold lines
  rw [items_refer]

def Edit.lines : Edit → List Item
  | .add items => items.map Item.plain
  | .refer _ | .fixup => []

theorem lines_edit (o : Output) (es : List Edit) :
    (o.edit es).lines = o.lines ++ es.flatMap Edit.lines := by
  induction es generalizing o with
  | nil => simp [edit]
  | cons e es ih =>
      have hone : (Edit.apply o e).lines = o.lines ++ e.lines := by
        cases e with
        | add items => exact o.lines_addAll items
        | refer rs => exact (o.lines_refer rs).trans (List.append_nil _).symm
        | fixup => exact o.lines_fixup.trans (List.append_nil _).symm
      have hrest : o.edit (e :: es) = (Edit.apply o e).edit es := rfl
      rw [hrest, ih, hone, List.flatMap_cons, List.append_assoc]

/-! ## Labels -/

/-- The references of the label at the address; without a label there are none. -/
def referencesTo (o : Output) (a : Int) : List Int :=
  ((o.label? a).map Label.references).getD []

theorem labels_addAll (o : Output) (items : List Item) : (o.addAll items).labels = o.labels := by
  unfold addAll
  induction items generalizing o with
  | nil => rfl
  | cons item items ih => exact ih (o.add item)

theorem hasLabelAt_eq_isSome (o : Output) (a : Int) : o.hasLabelAt a = (o.label? a).isSome :=
  List.isSome_find?.symm

/-- A label that is asked for is there, with one source more if one is given. -/
theorem label?_createLabel (o : Output) (address : Int) (source : Option Int) (a : Int) :
    (o.createLabel address source).label? a =
      if address = a then some ⟨a, o.referencesTo a ++ source.toList⟩ else o.label? a := by
  unfold referencesTo label? createLabel
  dsimp only
  induction o.labels with
  | nil => by_cases h : address = a <;> simp [noteLabel, h]
  | cons l rest ih =>
      unfold noteLabel
      by_cases ht : l.address = address
      · -- the label takes the source, and it is the first one at its address
        obtain ⟨place, references⟩ := l
        obtain rfl : place = address := ht
        by_cases ha : place = a <;> cases source <;> simp [ha]
      · by_cases ha : l.address = a
        · have hne : address ≠ a := fun h => ht (ha.trans h.symm)
          simp [ha, hne, hne.symm]
        · simpa [ht, ha] using ih

theorem referencesTo_createLabel (o : Output) (r : Reference) (a : Int) :
    (o.createLabel r.target (some r.source)).referencesTo a =
      o.referencesTo a ++ if r.target = a then [r.source] else [] := by
  rw [referencesTo, label?_createLabel]
  split
  · rfl
  · exact (List.append_nil _).symm

theorem hasLabelAt_createLabel (o : Output) (r : Reference) (a : Int) :
    (o.createLabel r.target (some r.source)).hasLabelAt a =
      (o.hasLabelAt a || r.target == a) := by
  rw [hasLabelAt_eq_isSome, hasLabelAt_eq_isSome, label?_createLabel]
  by_cases h : r.target = a <;> simp [h]

theorem referencesTo_refer (o : Output) (rs : List Reference) (a : Int) :
    (o.refer rs).referencesTo a =
      o.referencesTo a ++ (rs.filter (·.target == a)).map Reference.source := by
  induction rs generalizing o with
  | nil => simp [refer]
  | cons r rs ih =>
      have hrest : o.refer (r :: rs) = (o.createLabel r.target (some r.source)).refer rs := rfl
      rw [hrest, ih, referencesTo_createLabel]
      by_cases h : r.target = a <;> simp [h]

theorem hasLabelAt_refer (o : Output) (rs : List Reference) (a : Int) :
    (o.refer rs).hasLabelAt a = (o.hasLabelAt a || rs.any (·.target == a)) := by
  induction rs generalizing o with
  | nil => simp [refer]
  | cons r rs ih =>
      have hrest : o.refer (r :: rs) = (o.createLabel r.target (some r.source)).refer rs := rfl
      rw [hrest, ih, hasLabelAt_createLabel, List.any_cons, Bool.or_assoc]

theorem referencesTo_congr {o o' : Output} (h : o'.labels = o.labels) (a : Int) :
    o'.referencesTo a = o.referencesTo a := by
  unfold referencesTo label?
  rw [h]

theorem hasLabelAt_congr {o o' : Output} (h : o'.labels = o.labels) (a : Int) :
    o'.hasLabelAt a = o.hasLabelAt a := by
  unfold hasLabelAt
  rw [h]

def Edit.references : Edit → List Reference
  | .refer rs => rs
  | .add _ | .fixup => []

theorem labels_edit (o : Output) (es : List Edit) :
    (o.edit es).labels = (o.refer (es.flatMap Edit.references)).labels := by
  induction es generalizing o with
  | nil => rfl
  | cons e es ih =>
      have hone : (Edit.apply o e).labels = (o.refer e.references).labels := by
        cases e with
        | add items => exact o.labels_addAll items
        | refer rs => rfl
        | fixup => exact o.labels_fixup
      have hrest : o.edit (e :: es) = (Edit.apply o e).edit es := rfl
      rw [hrest, ih, labels_refer, hone, labels_refer, labels_refer, List.flatMap_cons,
        List.foldl_append]

theorem referencesTo_edit (o : Output) (es : List Edit) (a : Int) :
    (o.edit es).referencesTo a = o.referencesTo a ++
      ((es.flatMap Edit.references).filter (·.target == a)).map Reference.source := by
  rw [referencesTo_congr (o.labels_edit es), referencesTo_refer]

theorem hasLabelAt_edit (o : Output) (es : List Edit) (a : Int) :
    (o.edit es).hasLabelAt a =
      (o.hasLabelAt a || (es.flatMap Edit.references).any (·.target == a)) := by
  rw [hasLabelAt_congr (o.labels_edit es), hasLabelAt_refer]

/-! ## Outputs that are edited alike -/

/-- The same edits lead from `o` to `q` and from `o'` to `q'`. -/
def Alike (o q o' q' : Output) : Prop := ∃ es, q = o.edit es ∧ q' = o'.edit es

variable {o o' q q' t t' : Output}

theorem Alike.refl (o o' : Output) : Alike o o o' o' := ⟨[], rfl, rfl⟩

theorem Alike.trans (h : Alike o q o' q') (h' : Alike q t q' t') : Alike o t o' t' := by
  obtain ⟨es, rfl, rfl⟩ := h
  obtain ⟨fs, rfl, rfl⟩ := h'
  exact ⟨es ++ fs, (o.edit_append es fs).symm, (o'.edit_append es fs).symm⟩

theorem alike_addAll (o o' : Output) (items : List Item) :
    Alike o (o.addAll items) o' (o'.addAll items) := ⟨[.add items], rfl, rfl⟩

theorem alike_refer (o o' : Output) (rs : List Reference) :
    Alike o (o.refer rs) o' (o'.refer rs) := ⟨[.refer rs], rfl, rfl⟩

theorem Alike.fixup (h : Alike o q o' q') : Alike o q.fixup o' q'.fixup :=
  h.trans ⟨[.fixup], rfl, rfl⟩

theorem Alike.eq (h : Alike o q o q') : q' = q := by
  obtain ⟨es, rfl, rfl⟩ := h
  rfl

/-! ## Outputs that are joined -/

/-- The output holds what the others hold, one after another: their items, flags apart, their
labels, and under every label their references to it. -/
structure Joins (o : Output) (os : List Output) : Prop where
  lines : o.lines = os.flatMap Output.lines
  labels : ∀ a, o.hasLabelAt a = os.any (·.hasLabelAt a)
  references : ∀ a, o.referencesTo a = os.flatMap (·.referencesTo a)

theorem joins_nil : Joins {} [] := ⟨rfl, fun _ => rfl, fun _ => rfl⟩

/-- What edits put behind an output is what they make of an empty one. -/
theorem Joins.snoc {os : List Output} (h : o.Joins os) (ha : Alike o q {} q') :
    q.Joins (os ++ [q'.fixup]) := by
  obtain ⟨es, rfl, rfl⟩ := ha
  have hlabels := (edit {} es).labels_fixup
  refine ⟨?_, fun a => ?_, fun a => ?_⟩
  · rw [lines_edit, h.lines, List.flatMap_append, List.flatMap_singleton, lines_fixup, lines_edit]
    rfl
  · rw [hasLabelAt_edit, h.labels, List.any_append, List.any_cons, List.any_nil, Bool.or_false,
      hasLabelAt_congr hlabels, hasLabelAt_edit]
    rfl
  · rw [referencesTo_edit, h.references, List.flatMap_append, List.flatMap_singleton,
      referencesTo_congr hlabels, referencesTo_edit]
    rfl

theorem Joins.fixup {os : List Output} (h : o.Joins os) : o.fixup.Joins os where
  lines := o.lines_fixup.trans h.lines
  labels a := (hasLabelAt_congr o.labels_fixup a).trans (h.labels a)
  references a := (referencesTo_congr o.labels_fixup a).trans (h.references a)

end Output

/-!
## The address space

Places in an image are integers of any size, but what an output shows is folded into the 64K of
the address space: the addresses of items, those of labels, and those that refer to labels.
-/

def IsAddress (a : Int) : Prop := 0 ≤ a ∧ a ≤ 0xFFFF

theorem isAddress_wrap (a : Int) : IsAddress (wrap a) :=
  ⟨wrap_nonneg a, Int.lt_add_one_iff.1 (wrap_lt a)⟩

theorem Setting.isAddress_shownAddress (s : Setting) (place : Int) :
    IsAddress (s.shownAddress place) := isAddress_wrap _

def Reference.InSpace (r : Reference) : Prop := IsAddress r.target ∧ IsAddress r.source

def Label.InSpace (l : Label) : Prop := IsAddress l.address ∧ ∀ a ∈ l.references, IsAddress a

structure Output.InSpace (o : Output) : Prop where
  lines : ∀ item ∈ o.lines, IsAddress item.address
  labels : ∀ l ∈ o.labels, l.InSpace

namespace Output

variable {o : Output}

theorem InSpace.items (h : o.InSpace) : ∀ item ∈ o.items, IsAddress item.address := by
  intro item hi
  exact h.lines item.plain (List.mem_map_of_mem (Array.mem_toList_iff.2 hi))

end Output

end RomListing

import RomListing.Output
import RomListing.Proofs.Decoding

/-! # How an output grows

An output is looked at as its items without their label flags, together with its label table.
Flags are set again and again during a pass and only at its end they are right, so that the
theory of passes leaves them out. In this view a pass does nothing but append items, and the
table is a function of the items.
-/

namespace RomListing

def Item.plain (item : Item) : Item := { item with hasLabel := false }

@[simp] theorem Item.plain_address (item : Item) : item.plain.address = item.address := rfl

@[simp] theorem Item.plain_opcodes (item : Item) : item.plain.opcodes = item.opcodes := rfl

@[simp] theorem Item.plain_uses (item : Item) : item.plain.uses = item.uses := rfl

theorem Item.plain_of_hasLabel {item : Item} (h : item.hasLabel = false) : item.plain = item := by
  cases item
  cases h
  rfl

/-- All that an item is besides its view without the flag is the flag. -/
theorem Item.eq_of_plain {item item' : Item} (h : item'.plain = item.plain)
    (hflag : item'.hasLabel = item.hasLabel) : item' = item := by
  have hflagged : { item'.plain with hasLabel := item'.hasLabel } =
      { item.plain with hasLabel := item.hasLabel } := by rw [h, hflag]
  exact hflagged

/-! ## The label table -/

/-- The labels are those that the references use, each once, with the places that refer to it
in order. -/
structure Tabulates (rs : List Reference) (labels : List Label) : Prop where
  once : (labels.map Label.address).Nodup
  targets : ∀ a, a ∈ labels.map Label.address ↔ a ∈ rs.map Reference.target
  sources : ∀ l ∈ labels,
    l.references = (rs.filter (·.target == l.address)).map Reference.source

theorem Tabulates.nil : Tabulates [] [] := by
  constructor <;> simp

namespace Output

theorem noteLabel_addresses (a : Int) (source : Option Int) (labels : List Label) :
    (noteLabel a source labels).map Label.address =
      if a ∈ labels.map Label.address then labels.map Label.address
      else labels.map Label.address ++ [a] := by
  induction labels with
  | nil => simp [noteLabel]
  | cons l rest ih =>
      unfold noteLabel
      by_cases hl : l.address = a
      · rw [if_pos hl, if_pos (by simp [hl])]
        cases source <;> rfl
      · rw [if_neg hl, List.map_cons, ih]
        have hiff : a ∈ (l :: rest).map Label.address ↔ a ∈ rest.map Label.address := by
          simp [Ne.symm hl]
        simp only [hiff]
        split <;> simp

/-- Every label comes from one that was there: the noted one with one source more, the others
as they were. A label that was not there has this source alone. -/
theorem noteLabel_references {a source : Int} {labels : List Label}
    (hn : (labels.map Label.address).Nodup) {l : Label}
    (hl : l ∈ noteLabel a (some source) labels) :
    (l.address ≠ a ∧ l ∈ labels) ∨
      (l.address = a ∧ ∃ old ∈ labels,
        old.address = a ∧ l.references = old.references ++ [source]) ∨
      (a ∉ labels.map Label.address ∧ l = ⟨a, [source]⟩) := by
  induction labels with
  | nil => exact .inr (.inr ⟨by simp, by simpa [noteLabel] using hl⟩)
  | cons first rest ih =>
      rw [List.map_cons, List.nodup_cons] at hn
      unfold noteLabel at hl
      by_cases hf : first.address = a
      · rw [if_pos hf] at hl
        rcases List.mem_cons.1 hl with rfl | hl
        · exact .inr (.inl ⟨hf, first, by simp, hf, rfl⟩)
        · -- the address is taken, so that the labels behind this one have others
          refine .inl ⟨?_, List.mem_cons_of_mem _ hl⟩
          rintro rfl
          exact hn.1 (hf ▸ List.mem_map_of_mem hl)
      · rw [if_neg hf] at hl
        rcases List.mem_cons.1 hl with rfl | hl
        · exact .inl ⟨hf, by simp⟩
        · rcases ih hn.2 hl with ⟨ha, hmem⟩ | ⟨ha, old, hold, h⟩ | ⟨hnot, h⟩
          · exact .inl ⟨ha, List.mem_cons_of_mem _ hmem⟩
          · exact .inr (.inl ⟨ha, old, List.mem_cons_of_mem _ hold, h⟩)
          · exact .inr (.inr ⟨by simpa [Ne.symm hf] using hnot, h⟩)

end Output

theorem Tabulates.note {rs : List Reference} {labels : List Label} (h : Tabulates rs labels)
    (r : Reference) :
    Tabulates (rs ++ [r]) (Output.noteLabel r.target (some r.source) labels) := by
  refine ⟨?_, ?_, ?_⟩
  · rw [Output.noteLabel_addresses]
    split
    · exact h.once
    · rename_i hnew
      rw [List.nodup_append]
      refine ⟨h.once, by simp, ?_⟩
      intro a ha b hb hab
      rw [List.mem_singleton] at hb
      exact hnew (hb ▸ hab ▸ ha)
  · intro a
    rw [Output.noteLabel_addresses, List.map_append, List.mem_append, ← h.targets]
    split
    · rename_i hold
      constructor
      · exact Or.inl
      · rintro (ha | ha)
        · exact ha
        · rw [List.map_singleton, List.mem_singleton] at ha
          exact ha ▸ hold
    · rw [List.mem_append, List.map_singleton]
  · intro l hl
    rw [List.filter_append, List.map_append]
    rcases Output.noteLabel_references h.once hl with
      ⟨ha, hmem⟩ | ⟨ha, old, hold, haddress, href⟩ | ⟨hnew, rfl⟩
    · rw [h.sources l hmem]
      simp [Ne.symm ha]
    · rw [href, h.sources old hold, haddress, ha]
      simp
    · rw [h.targets] at hnew
      have hnone : rs.filter (·.target == r.target) = [] := by
        rw [List.filter_eq_nil_iff]
        intro x hx hxr
        exact hnew (eq_of_beq hxr ▸ List.mem_map_of_mem hx)
      simp [hnone]

namespace Output

def lines (o : Output) : List Item := o.items.toList.map Item.plain

/-- The label table is the cross-reference of the items. -/
def CrossReferenced (o : Output) : Prop := Tabulates (o.lines.flatMap Item.uses) o.labels

/-- `o'` is `o` with some items more, flags apart, and with their uses of labels noted. -/
structure Extends (o : Output) (items : List Item) (o' : Output) : Prop where
  lines : o'.lines = o.lines ++ items
  labels : o'.labels = (items.flatMap Item.uses).foldl
    (fun labels r => noteLabel r.target (some r.source) labels) o.labels

variable {o o' o'' : Output} {items items' : List Item}

theorem Extends.refl (o : Output) : o.Extends [] o := ⟨by simp, rfl⟩

theorem Extends.trans (h : o.Extends items o') (h' : o'.Extends items' o'') :
    o.Extends (items ++ items') o'' := by
  constructor
  · rw [h'.lines, h.lines, List.append_assoc]
  · rw [h'.labels, h.labels, List.flatMap_append, List.foldl_append]

theorem labels_refer (o : Output) (rs : List Reference) :
    (o.refer rs).labels =
      rs.foldl (fun labels r => noteLabel r.target (some r.source) labels) o.labels := by
  unfold refer
  induction rs generalizing o with
  | nil => rfl
  | cons r rs ih => exact ih _

theorem items_refer (o : Output) (rs : List Reference) : (o.refer rs).items = o.items := by
  unfold refer
  induction rs generalizing o with
  | nil => rfl
  | cons r rs ih => exact ih _

/-- An instruction is added after its uses of labels are noted. -/
theorem extends_refer_add (o : Output) {item : Item} (h : item.hasLabel = false) :
    o.Extends [item] ((o.refer item.uses).add item) := by
  constructor
  · simp [lines, add, items_refer, Item.plain_of_hasLabel h]
  · simp [add, labels_refer]

theorem extends_addAll (o : Output) {items : List Item}
    (h : ∀ item ∈ items, item.hasLabel = false ∧ item.uses = []) :
    o.Extends items (o.addAll items) := by
  induction items generalizing o with
  | nil => exact .refl o
  | cons item items ih =>
      have hitem := h item (by simp)
      have hone := o.extends_refer_add hitem.1
      rw [hitem.2] at hone
      exact hone.trans (ih (o.add item) fun i hi => h i (List.mem_cons_of_mem _ hi))

theorem flag_plain (wanted : Std.TreeSet Int) (items : List Item) :
    (flag wanted items).1.map Item.plain = items.map Item.plain := by
  unfold flag
  induction items with
  | nil => rfl
  | cons item items ih =>
      rw [List.foldr_cons]
      split
      all_goals exact congrArg (item.plain :: ·) ih

theorem lines_fixup (o : Output) : o.fixup.lines = o.lines := by
  unfold fixup lines
  split
  · rfl
  · exact flag_plain _ _

theorem labels_fixup (o : Output) : o.fixup.labels = o.labels := by
  unfold fixup
  split <;> rfl

theorem Extends.fixup (h : o.Extends items o') : o.Extends items o'.fixup :=
  ⟨(lines_fixup o').trans h.lines, (labels_fixup o').trans h.labels⟩

theorem Extends.crossReferenced (h : o.Extends items o') (ho : o.CrossReferenced) :
    o'.CrossReferenced := by
  -- the table is carried along as the references are noted one by one
  have grow (rs : List Reference) : ∀ {before labels}, Tabulates before labels →
      Tabulates (before ++ rs)
        (rs.foldl (fun labels r => noteLabel r.target (some r.source) labels) labels) := by
    induction rs with
    | nil => simp
    | cons r rs ih =>
        intro before labels hb
        simpa using ih (hb.note r)
  unfold CrossReferenced
  rw [h.lines, h.labels, List.flatMap_append]
  exact grow _ ho

theorem crossReferenced_empty : CrossReferenced {} := .nil

end Output

end RomListing

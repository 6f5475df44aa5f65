import RomListing.Proofs.Output.Edits

/-! # Label flags

The items of a pass are flagged several times, and a flag is never taken back. A flag that was set
early stays right if nothing is listed later at its address, and what is listed later stands at
addresses of its own. Whoever flags the items for the last time therefore leaves them flagged as if
they had been flagged only then.
-/

namespace RomListing

def Item.flaggedAt (item : Item) (a : Int) : Bool := item.hasLabel && item.address == a

theorem Item.flaggedAt_iff {item : Item} {a : Int} :
    item.flaggedAt a = true ↔ item.hasLabel = true ∧ item.address = a := by
  rw [flaggedAt, Bool.and_eq_true, beq_iff_eq]

namespace Output

/-- An item is flagged exactly if its address is labelled and no item after it stands there. -/
def FlaggedBy (labelled : Int → Bool) (items : List Item) : Prop :=
  ∀ before item after, items = before ++ item :: after →
    (item.hasLabel = true ↔
      labelled item.address = true ∧ ∀ later ∈ after, later.address ≠ item.address)

def Flagged (o : Output) : Prop := FlaggedBy o.hasLabelAt o.items.toList

/-- The flags that are set are right, and will be if nothing more is listed at their addresses. -/
structure Settled (o : Output) : Prop where
  labelled : ∀ item ∈ o.items.toList, item.hasLabel = true → o.hasLabelAt item.address = true
  final : o.items.toList.Pairwise fun item later =>
    item.hasLabel = true → later.address ≠ item.address

theorem settled_empty : Settled {} := ⟨by simp, by simp⟩

/-! ## Flagging once -/

section

variable {labelled : Int → Bool} {item : Item} {items : List Item} {wanted : Std.TreeSet Int}

theorem FlaggedBy.tail (h : FlaggedBy labelled (item :: items)) : FlaggedBy labelled items :=
  fun before i after heq => h (item :: before) i after (congrArg (item :: ·) heq)

theorem FlaggedBy.pairwise (h : FlaggedBy labelled items) :
    items.Pairwise fun item later => item.hasLabel = true → later.address ≠ item.address := by
  induction items with
  | nil => exact .nil
  | cons item items ih =>
      refine List.pairwise_cons.2 ⟨fun later hlater hflag => ?_, ih h.tail⟩
      exact ((h [] item items rfl).1 hflag).2 later hlater

theorem FlaggedBy.labelled_of_mem (h : FlaggedBy labelled items) (hi : item ∈ items)
    (hflag : item.hasLabel = true) : labelled item.address = true := by
  obtain ⟨before, after, heq⟩ := List.append_of_mem hi
  exact ((h before item after heq).1 hflag).1

/-- Of the items at a labelled address exactly one is flagged. -/
theorem FlaggedBy.flags_one (h : FlaggedBy labelled items) {a : Int} (ha : labelled a = true)
    (hsome : ∃ item ∈ items, item.address = a) : items.countP (·.flaggedAt a) = 1 := by
  induction items with
  | nil => simp at hsome
  | cons item items ih =>
      have hhead := h [] item items rfl
      rw [List.countP_cons]
      by_cases hlater : ∃ later ∈ items, later.address = a
      · -- a later item stands for the address, so that this one is not flagged for it
        have hnot : ¬item.flaggedAt a = true := by
          rw [Item.flaggedAt_iff, hhead]
          rintro ⟨⟨-, hlast⟩, rfl⟩
          obtain ⟨later, hmem, haddress⟩ := hlater
          exact hlast later hmem haddress
        rw [ih h.tail hlater, if_neg hnot]
      · have hnone : items.countP (·.flaggedAt a) = 0 := by
          rw [List.countP_eq_zero]
          exact fun later hmem hflag => hlater ⟨later, hmem, (Item.flaggedAt_iff.1 hflag).2⟩
        have hitem : item.address = a := by
          obtain ⟨first, hmem, haddress⟩ := hsome
          rcases List.mem_cons.1 hmem with rfl | hrest
          · exact haddress
          · exact absurd ⟨first, hrest, haddress⟩ hlater
        have hflag : item.flaggedAt a = true := by
          rw [Item.flaggedAt_iff, hhead, hitem]
          exact ⟨⟨ha, fun later hl haddress => hlater ⟨later, hl, haddress⟩⟩, rfl⟩
        rw [hnone, if_pos hflag]

/-- Right flags are all that is left to know of items of which all else is known. -/
theorem FlaggedBy.eq_of_plain (h : FlaggedBy labelled items) {items' : List Item}
    (h' : FlaggedBy labelled items') (hplain : items'.map Item.plain = items.map Item.plain) :
    items' = items := by
  induction items generalizing items' with
  | nil => exact List.map_eq_nil_iff.1 hplain
  | cons item items ih =>
      obtain ⟨item', rest, rfl, hitem, hrest⟩ := List.map_eq_cons_iff.1 hplain
      obtain rfl : rest = items := ih h.tail h'.tail hrest
      have haddress : item'.address = item.address := (congrArg Item.address hitem :)
      have hflag : item'.hasLabel = item.hasLabel := by
        rw [Bool.eq_iff_iff, h [] item rest rfl, h' [] item' rest rfl, haddress]
      exact congrArg (· :: rest) (Item.eq_of_plain hitem hflag)

theorem flag_cons (wanted : Std.TreeSet Int) (item : Item) (items : List Item) :
    flag wanted (item :: items) =
      if (flag wanted items).2.contains item.address then
        ({ item with hasLabel := true } :: (flag wanted items).1,
          (flag wanted items).2.erase item.address)
      else (item :: (flag wanted items).1, (flag wanted items).2) := rfl

/-- What flagging changes is the flag. -/
theorem flag_map {β : Type} {g : Item → β} (hg : ∀ item, g item.plain = g item)
    (wanted : Std.TreeSet Int) (items : List Item) :
    (flag wanted items).1.map g = items.map g := by
  have hplain (items : List Item) : items.map g = (items.map Item.plain).map g := by
    rw [List.map_map]
    exact List.map_congr_left fun item _ => (hg item).symm
  rw [hplain, flag_plain, ← hplain]

/-- Wanted addresses at which no item was met are still wanted. -/
theorem flag_left (wanted : Std.TreeSet Int) (items : List Item) (a : Int) :
    (flag wanted items).2.contains a = true ↔
      wanted.contains a = true ∧ ∀ item ∈ items, item.address ≠ a := by
  induction items with
  | nil =>
      have hnil : (flag wanted []).2 = wanted := rfl
      simp [hnil]
  | cons item items ih =>
      have hcons : (flag wanted (item :: items)).2.contains a = true ↔
          (flag wanted items).2.contains a = true ∧ item.address ≠ a := by
        rw [flag_cons]
        split
        · simp [Std.TreeSet.contains_erase, and_comm]
        · rename_i hnot
          constructor
          · exact fun hleft => ⟨hleft, fun ha => hnot (ha ▸ hleft)⟩
          · exact And.left
      rw [hcons, ih, List.forall_mem_cons, and_assoc, and_comm (a := item.address ≠ a)]

theorem flag_head (wanted : Std.TreeSet Int) (item : Item) (items : List Item) :
    (flag wanted (item :: items)).1 =
      { item with hasLabel := item.hasLabel || (flag wanted items).2.contains item.address } ::
        (flag wanted items).1 := by
  rw [flag_cons]
  split
  · rename_i hleft
    simp [hleft]
  · rename_i hleft
    simp [hleft]

/-- Flags that were right before stay right, and the others become right. -/
theorem flag_flaggedBy (hwanted : ∀ a, wanted.contains a = labelled a)
    (hlabelled : ∀ item ∈ items, item.hasLabel = true → labelled item.address = true)
    (hfinal : items.Pairwise fun item later =>
      item.hasLabel = true → later.address ≠ item.address) :
    FlaggedBy labelled (flag wanted items).1 := by
  induction items with
  | nil =>
      intro before item after heq
      cases before <;> cases heq
  | cons head items ih =>
      rw [List.forall_mem_cons] at hlabelled
      rw [List.pairwise_cons] at hfinal
      rw [flag_head]
      intro before item after heq
      cases before with
      | cons first before =>
          rw [List.cons_append, List.cons_eq_cons] at heq
          exact ih hlabelled.2 hfinal.2 before item after heq.2
      | nil =>
          obtain ⟨rfl, rfl⟩ := List.cons_eq_cons.1 heq
          have hlater : (∀ later ∈ (flag wanted items).1, later.address ≠ head.address) ↔
              ∀ later ∈ items, later.address ≠ head.address := by
            have haddress : (flag wanted items).1.map Item.address = items.map Item.address :=
              flag_map (fun _ => rfl) wanted items
            simpa using congrArg (fun addresses => head.address ∉ addresses) haddress
          dsimp only
          rw [hlater, Bool.or_eq_true, flag_left, hwanted]
          constructor
          · rintro (hflag | hright)
            · exact ⟨hlabelled.1 hflag, fun later hl => hfinal.1 later hl hflag⟩
            · exact hright
          · exact Or.inr

end

/-! ## Outputs -/

variable {o o' o'' : Output} {items items' : List Item}

theorem eq_of_items (hitems : o'.items.toList = o.items.toList) (hlabels : o'.labels = o.labels) :
    o' = o := by
  obtain ⟨items, labels⟩ := o
  obtain ⟨items', labels'⟩ := o'
  obtain rfl : labels' = labels := hlabels
  obtain rfl : items' = items := Array.toList_inj.1 hitems
  rfl

theorem Flagged.eq (h : o.Flagged) (h' : o'.Flagged) (hlines : o'.lines = o.lines)
    (hlabels : o'.labels = o.labels) : o' = o := by
  unfold Flagged at h h'
  rw [show o'.hasLabelAt = o.hasLabelAt from funext (hasLabelAt_congr hlabels)] at h'
  exact eq_of_items (h.eq_of_plain h' hlines) hlabels

theorem Flagged.settled (h : o.Flagged) : o.Settled :=
  ⟨fun _ hi hflag => h.labelled_of_mem hi hflag, h.pairwise⟩

/-- The flags of a settled output are right once all items are flagged. -/
theorem Settled.flagged_fixup (h : o.Settled) : o.fixup.Flagged := by
  have hlabels : o.fixup.hasLabelAt = o.hasLabelAt :=
    funext (hasLabelAt_congr o.labels_fixup)
  unfold Flagged
  rw [hlabels]
  unfold fixup
  split
  · -- without labels nothing is flagged, and nothing should be
    rename_i hempty
    have hnone (a : Int) : o.hasLabelAt a = false := by
      rw [hasLabelAt, List.isEmpty_iff.1 hempty, List.any_nil]
    intro before item after heq
    have hmem : item ∈ o.items.toList := by simp [heq]
    have hflag := h.labelled item hmem
    rw [hnone] at hflag ⊢
    simpa using hflag
  · refine flag_flaggedBy (fun a => ?_) h.labelled h.final
    rw [Std.TreeSet.contains_ofList, hasLabelAt, List.contains_eq_any_beq, List.any_map]
    exact congrArg o.labels.any (funext fun l => Bool.beq_comm)

theorem Settled.fixup (h : o.Settled) : o.fixup.Settled := h.flagged_fixup.settled

structure Appends (o : Output) (items : List Item) (o' : Output) : Prop where
  items : o'.items.toList = o.items.toList ++ items
  labels : ∀ a, o.hasLabelAt a = true → o'.hasLabelAt a = true

theorem Appends.refl (o : Output) : o.Appends [] o := ⟨(List.append_nil _).symm, fun _ h => h⟩

theorem Appends.trans (h : o.Appends items o') (h' : o'.Appends items' o'') :
    o.Appends (items ++ items') o'' := by
  refine ⟨?_, fun a ha => h'.labels a (h.labels a ha)⟩
  rw [h'.items, h.items, List.append_assoc]

theorem appends_addAll (o : Output) (items : List Item) : o.Appends items (o.addAll items) := by
  refine ⟨?_, fun a ha => (hasLabelAt_congr (o.labels_addAll items) a).trans ha⟩
  unfold addAll
  induction items generalizing o with
  | nil => exact (List.append_nil _).symm
  | cons item items ih =>
      have hone : (o.add item).items.toList = o.items.toList ++ [item] := Array.toList_push
      rw [List.foldl_cons, ih, hone, List.append_assoc, List.singleton_append]

theorem appends_refer (o : Output) (rs : List Reference) : o.Appends [] (o.refer rs) := by
  refine ⟨by rw [items_refer, List.append_nil], fun a ha => ?_⟩
  rw [hasLabelAt_refer, ha, Bool.true_or]

theorem Appends.lines (h : o.Appends items o') (hplain : ∀ item ∈ items, item.hasLabel = false) :
    o'.lines = o.lines ++ items := by
  have hitems : items.map Item.plain = items :=
    (List.map_congr_left fun item hi => Item.plain_of_hasLabel (hplain item hi)).trans
      (List.map_id _)
  unfold Output.lines
  rw [h.items, List.map_append, hitems]

/-- Items at addresses of their own disturb no flag. -/
theorem Settled.appends (h : o.Settled) (ha : o.Appends items o')
    (hplain : ∀ item ∈ items, item.hasLabel = false)
    (hown : ∀ old ∈ o.items.toList, ∀ item ∈ items, item.address ≠ old.address) :
    o'.Settled := by
  constructor
  · intro item hi hflag
    rw [ha.items, List.mem_append] at hi
    rcases hi with hold | hnew
    · exact ha.labels _ (h.labelled item hold hflag)
    · rw [hplain item hnew] at hflag
      cases hflag
  · rw [ha.items, List.pairwise_append]
    refine ⟨h.final, ?_, fun old hold item hi _ => hown old hold item hi⟩
    refine List.pairwise_iff_forall_sublist.2 fun hsub hflag => ?_
    rw [hplain _ (hsub.subset List.mem_cons_self)] at hflag
    cases hflag

end Output

end RomListing

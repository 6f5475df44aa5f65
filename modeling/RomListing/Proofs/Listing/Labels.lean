import RomListing.Listing
import RomListing.Proofs.Listing.Numerals
import RomListing.Proofs.Output.Flags
import RomListing.Proofs.Pass.Rows

/-! # The label lines of a listing

A listing defines a label by a line of its own, before the line of the item at the address of the
label. Among the items at one address only one continues no other, so that no label is defined
twice; and the line is not mistaken for the line of an item, which starts with a blank.
-/

namespace RomListing

theorem Text.dropEnd_prefix {α : Type} (p : α → Bool) (as : List α) : dropEnd p as <+: as :=
  List.reverse_suffix.1 (by simpa [dropEnd] using List.dropWhile_suffix p (l := as.reverse))

/-- The item is the one at the address that continues no other. -/
def Item.heads (item : Item) (a : Int) : Bool := !item.continuation && item.address == a

theorem Item.heads_iff {item : Item} {a : Int} :
    item.heads a = true ↔ item.continuation = false ∧ item.address = a := by
  simp [heads]

/-- Of the items at an address one continues no other. -/
theorem Listed.heads_one {s : Setting} {low high : Int} {items : List Item}
    (h : Listed s low high items) {a : Int} (hsome : ∃ item ∈ items, item.address = a) :
    items.countP (·.heads a) = 1 := by
  have hpos : 0 < items.countP (·.heads a) := by
    obtain ⟨item, hi, rfl⟩ := hsome
    obtain ⟨first, hf, hfirst⟩ := h.led item hi
    exact List.countP_pos_iff.2 ⟨first, hf, Item.heads_iff.2 hfirst⟩
  have hapart : (items.filter (·.heads a)).Pairwise fun _ _ => False := by
    refine (h.apart.filter _).imp_of_mem ?_
    intro item later hi hl hne
    have hitem := Item.heads_iff.1 (List.mem_filter.1 hi).2
    have hlater := Item.heads_iff.1 (List.mem_filter.1 hl).2
    exact hne hitem.1 hlater.1 (hitem.2.trans hlater.2.symm)
  rw [List.countP_eq_length_filter] at hpos ⊢
  generalize items.filter (·.heads a) = heads at *
  match heads, hpos, hapart with
  | [_], _, _ => rfl
  | _ :: _ :: _, _, .cons h _ => exact (h _ List.mem_cons_self).elim

namespace Listing

def labelLine (l : Listing) (a : Int) : Text := l.labelName a ++ ":"

/-- Labels are named in a listing as operands name them. -/
theorem ofOptions_labelName (o : Options) (showBytes : Bool) (a : Int) :
    (ofOptions o showBytes).labelName a = o.labelName a := by
  unfold labelName ofOptions Options.labelName Options.labelNumeral
  rw [Text.ofString_append]

section

variable {options : Options} {showBytes : Bool}

theorem labelLine_inj {a b : Int} (ha : 0 ≤ a) (hb : 0 ≤ b)
    (h : (ofOptions options showBytes).labelLine a = (ofOptions options showBytes).labelLine b) :
    a = b := by
  unfold labelLine at h
  rw [ofOptions_labelName, ofOptions_labelName] at h
  exact Options.labelName_inj ha hb (Text.ofString_inj (List.append_cancel_right h))

/-- The line of an item starts with a blank, or is empty. -/
theorem line_ne_labelLine (item : Item) (a : Int) :
    (ofOptions options showBytes).line item ≠ (ofOptions options showBytes).labelLine a := by
  intro heq
  have hline : ∀ l : Listing, ∃ rest, l.line item <+: .char ' ' :: rest :=
    fun l => ⟨_, Text.dropEnd_prefix _ _⟩
  obtain ⟨rest, tail, htail⟩ := hline (ofOptions options showBytes)
  have hlead : options.labelLead = "$" ∨ options.labelLead = "L" := by
    unfold Options.labelLead
    split <;> simp
  rw [heq, labelLine, ofOptions_labelName, Options.labelName, Text.ofString_append] at htail
  rcases hlead with hlead | hlead
  · rw [hlead] at htail
    cases htail
  · rw [hlead] at htail
    cases htail

/-- An item has the line of a label before its own if it continues no other and its address has a
label. That it is flagged comes to no more. -/
theorem itemLines_eq (l : Listing) {o : Output} {item : Item}
    (h : item.hasLabel = true → o.hasLabelAt item.address = true) : l.itemLines o item =
      (if item.continuation = false ∧ o.hasLabelAt item.address = true then
        [l.labelLine item.address] else []) ++ [l.line item] := by
  have hlabelled : (item.hasLabel || o.hasLabelAt item.address) = o.hasLabelAt item.address := by
    cases hflag : item.hasLabel with
    | false => rfl
    | true => rw [h hflag, Bool.or_true]
  unfold itemLines
  rw [hlabelled]
  cases item.continuation <;> cases o.hasLabelAt item.address <;> rfl

def labelLines (l : Listing) (o : Output) : List Text :=
  (o.items.toList.filter fun item => !item.continuation && o.hasLabelAt item.address).map
    fun item => l.labelLine item.address

/-- How often one item defines the label: once if it is the one at the address that continues no
other, and else never. -/
theorem count_itemLines {o : Output} {item : Item} {a : Int}
    (hflag : item.hasLabel = true → o.hasLabelAt item.address = true)
    (hplace : 0 ≤ item.address) (ha : 0 ≤ a) (hlabel : o.hasLabelAt a = true) :
    let l := ofOptions options showBytes
    (l.itemLines o item).count (l.labelLine a) = if item.heads a = true then 1 else 0 := by
  intro l
  have hline : [l.line item].count (l.labelLine a) = 0 :=
    List.count_eq_zero_of_not_mem fun hmem =>
      line_ne_labelLine item a (List.mem_singleton.1 hmem).symm
  rw [l.itemLines_eq hflag, List.count_append, hline, Nat.add_zero]
  by_cases hhead : item.heads a = true
  · obtain ⟨hstands, rfl⟩ := Item.heads_iff.1 hhead
    rw [if_pos ⟨hstands, hlabel⟩, if_pos hhead, List.count_singleton_self]
  · rw [if_neg hhead, List.count_eq_zero]
    split
    · rename_i hlabelled
      intro hmem
      have haddress := labelLine_inj ha hplace (List.mem_singleton.1 hmem)
      exact hhead (Item.heads_iff.2 ⟨hlabelled.1, haddress.symm⟩)
    · exact List.not_mem_nil

/-- The listing defines every label that has an item at its address, and once. -/
theorem count_labelLine {s : Setting} {o : Output} (hl : Listed s 0 0x10000 o.items.toList)
    (hflags : ∀ item ∈ o.items.toList,
      item.hasLabel = true → o.hasLabelAt item.address = true)
    {a : Int} (hlabel : o.hasLabelAt a = true) (hsome : ∃ item ∈ o.items.toList, item.address = a) :
    let l := ofOptions options showBytes
    (l.lines o).count (l.labelLine a) = 1 := by
  intro l
  have hplaced (item : Item) (hi : item ∈ o.items.toList) : 0 ≤ item.address := by
    obtain ⟨place, -, -, haddress⟩ := hl.placed item hi
    rw [haddress]
    exact wrap_nonneg _
  have ha : 0 ≤ a := by
    obtain ⟨item, hi, rfl⟩ := hsome
    exact hplaced item hi
  rw [← hl.heads_one hsome]
  unfold lines
  clear hl hsome
  generalize o.items.toList = items at *
  induction items with
  | nil => rfl
  | cons item items ih =>
      rw [List.forall_mem_cons] at hflags hplaced
      rw [List.flatMap_cons, List.count_append, List.countP_cons, ih hflags.2 hplaced.2,
        count_itemLines hflags.1 hplaced.1 ha hlabel, Nat.add_comm]

/-- No label line occurs twice. -/
theorem labelLines_nodup {s : Setting} {o : Output} (hl : Listed s 0 0x10000 o.items.toList) :
    ((ofOptions options showBytes).labelLines o).Nodup := by
  unfold labelLines List.Nodup
  rw [List.pairwise_map]
  refine (hl.apart.filter _).imp_of_mem ?_
  intro item later hi hlater hne hsame
  obtain ⟨hi, hitem⟩ := List.mem_filter.1 hi
  obtain ⟨hl', hlater⟩ := List.mem_filter.1 hlater
  obtain ⟨x, -, -, hx⟩ := hl.placed item hi
  obtain ⟨y, -, -, hy⟩ := hl.placed later hl'
  have haddress := labelLine_inj (hx ▸ wrap_nonneg _) (hy ▸ wrap_nonneg _) hsame
  simp only [Bool.and_eq_true, Bool.not_eq_true'] at hitem hlater
  exact hne hitem.1 hlater.1 haddress

end

end Listing

end RomListing

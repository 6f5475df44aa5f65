import Mathlib.Data.List.Induction
import RomListing.Proofs.Output.Flags

/-! # An output is what its log says

An output is written by three calls in any order. What it holds can be read off the log of the
calls alone: the items are the added ones, a label has the sources that it was asked for with, and
an item is flagged if it once stood for an address with a label when flags were set. A flag that
was set stays, also when a later item comes to stand for the address.
-/

namespace RomListing.Output

inductive Call where
  | add (item : Item)
  | label (address : Int) (source : Option Int)
  | fixup
  deriving DecidableEq

def call (o : Output) : Call → Output
  | .add item => o.add item
  | .label address source => o.createLabel address source
  | .fixup => o.fixup

def ofCalls (calls : List Call) : Output := calls.foldl call {}

theorem ofCalls_snoc (calls : List Call) (c : Call) :
    ofCalls (calls ++ [c]) = (ofCalls calls).call c := List.foldl_append

/-! ## What a log says -/

def Call.item? : Call → Option Item
  | .add item => some item
  | .label _ _ | .fixup => none

def Call.labels (a : Int) : Call → Bool
  | .label address _ => address == a
  | .add _ | .fixup => false

def Call.source? (a : Int) : Call → Option Int
  | .label address source => if address = a then source else none
  | .add _ | .fixup => none

def added (calls : List Call) : List Item := calls.filterMap Call.item?

/-- The `i`-th item is the last one at the address. -/
def StandsFor (items : List Item) (i : Nat) (a : Int) : Prop :=
  (items.map Item.address)[i]? = some a ∧ ∀ j, i < j → (items.map Item.address)[j]? ≠ some a

/-- When flags were set, there was a label for the address, and the `i`-th item stood for it. -/
def FlaggedOnce (calls : List Call) (i : Nat) (a : Int) : Prop :=
  ∃ before after, calls = before ++ .fixup :: after ∧ before.any (Call.labels a) = true ∧
    StandsFor (added before) i a

theorem added_snoc (calls : List Call) (c : Call) :
    added (calls ++ [c]) = added calls ++ c.item?.toList := by
  unfold added
  rw [List.filterMap_append]
  cases c <;> rfl

def labelIn (calls : List Call) (a : Int) : Option Label :=
  if calls.any (Call.labels a) then some ⟨a, calls.filterMap (Call.source? a)⟩ else none

theorem sources_of_unlabelled {calls : List Call} {a : Int}
    (h : calls.any (Call.labels a) = false) : calls.filterMap (Call.source? a) = [] := by
  rw [List.filterMap_eq_nil_iff]
  intro c hc
  have hother := List.any_eq_false.1 h c hc
  cases c with
  | label address source => exact if_neg (by simpa [Call.labels] using hother)
  | add _ | fixup => rfl

theorem labelIn_snoc (calls : List Call) (address : Int) (source : Option Int) (a : Int) :
    labelIn (calls ++ [.label address source]) a =
      if address = a then some ⟨a, calls.filterMap (Call.source? a) ++ source.toList⟩
      else labelIn calls a := by
  unfold labelIn
  rw [List.any_append, List.filterMap_append]
  by_cases h : address = a
  · cases source <;> simp [Call.labels, Call.source?, h]
  · simp [Call.labels, Call.source?, h]

theorem labelIn_snoc_other {calls : List Call} {c : Call} (a : Int)
    (h : c.labels a = false) (hsource : c.source? a = none) :
    labelIn (calls ++ [c]) a = labelIn calls a := by
  unfold labelIn
  rw [List.any_append, List.any_cons, h, List.any_nil, Bool.or_self, Bool.or_false,
    List.filterMap_append, List.filterMap_cons_none hsource, List.filterMap_nil, List.append_nil]

theorem FlaggedOnce.lt {calls : List Call} {i : Nat} {a : Int} (h : FlaggedOnce calls i a) :
    i < (added calls).length := by
  obtain ⟨before, after, rfl, -, hstands⟩ := h
  obtain ⟨hlt, -⟩ := List.getElem?_eq_some_iff.1 hstands.1
  rw [List.length_map] at hlt
  unfold added at hlt ⊢
  rw [List.filterMap_append, List.length_append]
  omega

/-- The last call counts only if it sets flags. -/
theorem flaggedOnce_snoc {calls : List Call} {c : Call} {i : Nat} {a : Int} :
    FlaggedOnce (calls ++ [c]) i a ↔ FlaggedOnce calls i a ∨
      c = .fixup ∧ calls.any (Call.labels a) = true ∧ StandsFor (added calls) i a := by
  constructor
  · rintro ⟨before, after, heq, hlabel, hstands⟩
    obtain rfl | ⟨after, d, rfl⟩ := after.eq_nil_or_concat
    · obtain ⟨rfl, hc⟩ := List.append_inj' heq rfl
      exact .inr ⟨(List.cons.inj hc).1, hlabel, hstands⟩
    · rw [List.concat_eq_append, ← List.cons_append, ← List.append_assoc] at heq
      obtain ⟨rfl, -⟩ := List.append_inj' heq rfl
      exact .inl ⟨before, after, rfl, hlabel, hstands⟩
  · rintro (⟨before, after, rfl, hlabel, hstands⟩ | ⟨rfl, hlabel, hstands⟩)
    · exact ⟨before, after ++ [c], by simp, hlabel, hstands⟩
    · exact ⟨calls, [], rfl, hlabel, hstands⟩

/-! ## Standing for an address -/

section

variable {item : Item} {items : List Item} {i : Nat} {a : Int}

theorem standsFor_zero : StandsFor (item :: items) 0 a ↔
    item.address = a ∧ ∀ later ∈ items, later.address ≠ a := by
  unfold StandsFor
  rw [List.map_cons, List.getElem?_cons_zero, Option.some_inj]
  refine and_congr_right fun _ => ⟨fun h later hl haddress => ?_, fun h j hj hsome => ?_⟩
  · obtain ⟨j, hj⟩ := List.mem_iff_getElem?.1 (List.mem_map_of_mem (f := Item.address) hl)
    exact h (j + 1) (Nat.succ_pos j) (by rw [List.getElem?_cons_succ, hj, haddress])
  · obtain ⟨k, rfl⟩ := Nat.exists_eq_succ_of_ne_zero (Nat.ne_of_gt hj)
    rw [List.getElem?_cons_succ] at hsome
    obtain ⟨later, hl, haddress⟩ := List.mem_map.1 (List.mem_of_getElem? hsome)
    exact h later hl haddress

theorem standsFor_succ : StandsFor (item :: items) (i + 1) a ↔ StandsFor items i a := by
  unfold StandsFor
  simp only [List.map_cons, List.getElem?_cons_succ]
  refine and_congr_right fun _ => ⟨fun h j hj => ?_, fun h j hj => ?_⟩
  · have hlater := h (j + 1) (Nat.succ_lt_succ hj)
    rwa [List.getElem?_cons_succ] at hlater
  · obtain ⟨k, rfl⟩ := Nat.exists_eq_succ_of_ne_zero (Nat.ne_of_gt (Nat.zero_lt_of_lt hj))
    rw [List.getElem?_cons_succ]
    exact h k (Nat.lt_of_succ_lt_succ hj)

/-- The flags of the items do not count. -/
theorem standsFor_congr {items' : List Item} (h : items'.map Item.plain = items.map Item.plain) :
    StandsFor items' i a ↔ StandsFor items i a := by
  have haddress : items'.map Item.address = items.map Item.address := by
    simpa only [List.map_map, Function.comp_def, Item.plain_address] using
      congrArg (List.map Item.address) h
  unfold StandsFor
  rw [haddress]

/-- The item that stands for an address is found from the back. -/
theorem find?_reverse_eq_some : items.reverse.find? (·.address == a) = some item ↔
    ∃ i, items[i]? = some item ∧ StandsFor items i a := by
  induction items with
  | nil => simp [StandsFor]
  | cons first items ih =>
      rw [List.reverse_cons, List.find?_append, Option.or_eq_some_iff, ih, List.find?_eq_none]
      constructor
      · rintro (⟨i, hi, hstands⟩ | ⟨hnone, hfirst⟩)
        · exact ⟨i + 1, hi, standsFor_succ.2 hstands⟩
        · rw [List.find?_singleton] at hfirst
          obtain ⟨haddress, rfl⟩ : first.address = a ∧ first = item := by simpa using hfirst
          exact ⟨0, rfl, standsFor_zero.2 ⟨haddress, by simpa using hnone⟩⟩
      · rintro ⟨i, hi, hstands⟩
        cases i with
        | zero =>
            obtain rfl : first = item := Option.some.inj hi
            obtain ⟨haddress, hlater⟩ := standsFor_zero.1 hstands
            exact .inr ⟨by simpa using hlater, by simp [haddress]⟩
        | succ i => exact .inl ⟨i, hi, standsFor_succ.1 hstands⟩

/-! ## Setting flags -/

/-- Flagging adds a flag to the items that stand for wanted addresses, and nothing else. -/
theorem flag_getElem? {wanted : Std.TreeSet Int} (h : (flag wanted items).1[i]? = some item) :
    ∃ old, items[i]? = some old ∧ item.plain = old.plain ∧
      (item.hasLabel = true ↔ old.hasLabel = true ∨
        wanted.contains item.address = true ∧ StandsFor items i item.address) := by
  induction items generalizing i with
  | nil => cases h
  | cons first items ih =>
      rw [flag_head] at h
      cases i with
      | zero =>
          obtain rfl := Option.some.inj h
          refine ⟨first, rfl, rfl, ?_⟩
          dsimp only
          rw [Bool.or_eq_true, flag_left, standsFor_zero, eq_self, true_and]
      | succ i =>
          obtain ⟨old, hold, hplain, hflag⟩ := ih h
          exact ⟨old, hold, hplain, by rw [hflag, standsFor_succ]⟩

end

variable {o : Output} {i : Nat} {item : Item}

/-- Setting flags adds a flag to the items that stand for addresses with a label. -/
theorem fixup_getElem? (h : o.fixup.items.toList[i]? = some item) :
    ∃ old, o.items.toList[i]? = some old ∧ item.plain = old.plain ∧
      (item.hasLabel = true ↔ old.hasLabel = true ∨
        o.hasLabelAt item.address = true ∧ StandsFor o.items.toList i item.address) := by
  unfold fixup at h
  split at h
  · rename_i hempty
    have hnone : o.hasLabelAt item.address = false := by
      rw [hasLabelAt, List.isEmpty_iff.1 hempty, List.any_nil]
    exact ⟨item, h, rfl, by simp [hnone]⟩
  · obtain ⟨old, hold, hplain, hflag⟩ := flag_getElem? h
    rw [Std.TreeSet.contains_ofList, List.contains_eq_any_beq, List.any_map] at hflag
    have hlabel : o.hasLabelAt item.address = o.labels.any fun l => item.address == l.address :=
      congrArg o.labels.any (funext fun l => Bool.beq_comm)
    rw [hlabel]
    exact ⟨old, hold, hplain, hflag⟩

/-- Setting flags again changes nothing. -/
theorem fixup_fixup (o : Output) : o.fixup.fixup = o.fixup := by
  have hitems : o.fixup.fixup.items.toList = o.fixup.items.toList := by
    refine List.ext_getElem? fun i => ?_
    have hplain := congrArg (·[i]?) o.fixup.lines_fixup
    simp only [lines, List.getElem?_map] at hplain
    cases hnew : o.fixup.fixup.items.toList[i]? with
    | none =>
        rw [hnew, Option.map_none, eq_comm, Option.map_eq_none_iff] at hplain
        exact hplain.symm
    | some item =>
        obtain ⟨old, hold, hplain, hflag⟩ := fixup_getElem? hnew
        obtain ⟨_, -, -, hflagged⟩ := fixup_getElem? hold
        have haddress : item.address = old.address := (congrArg Item.address hplain :)
        have hstands := standsFor_congr (i := i) (a := old.address) o.lines_fixup
        rw [haddress, hasLabelAt_congr o.labels_fixup, hstands] at hflag
        -- what would be flagged now has been flagged before
        have hsame : item.hasLabel = old.hasLabel := by
          rw [Bool.eq_iff_iff, hflag, hflagged]
          tauto
        rw [hold, Item.eq_of_plain hplain hsame]
  exact eq_of_items hitems o.fixup.labels_fixup

/-- No call changes an item that is there, its flag apart. -/
theorem call_getElem? (o : Output) (c : Call) (h : o.items[i]? = some item) :
    ∃ flag, (o.call c).items[i]? = some { item with hasLabel := flag } := by
  cases c with
  | add new =>
      obtain ⟨hlt, -⟩ := Array.getElem?_eq_some_iff.1 h
      exact ⟨item.hasLabel, (Array.getElem?_push_lt hlt).trans (Array.getElem?_eq_getElem hlt ▸ h)⟩
  | label address source => exact ⟨item.hasLabel, h⟩
  | fixup =>
      have hplain := congrArg (·[i]?) o.lines_fixup
      simp only [lines, List.getElem?_map, Array.getElem?_toList, h, Option.map_some] at hplain
      obtain ⟨new, hnew, hitem⟩ := Option.map_eq_some_iff.1 hplain
      exact ⟨new.hasLabel, hnew.trans (congrArg some (Item.eq_of_plain hitem rfl))⟩

/-! ## Logs -/

structure Records (o : Output) (calls : List Call) : Prop where
  lines : o.lines = added calls
  once : (o.labels.map Label.address).Nodup
  labels : ∀ a, o.label? a = labelIn calls a
  flags : ∀ i item, o.items.toList[i]? = some item →
    (item.hasLabel = true ↔ FlaggedOnce calls i item.address)

namespace Records

variable {calls : List Call}

theorem referencesTo (h : o.Records calls) (a : Int) :
    o.referencesTo a = calls.filterMap (Call.source? a) := by
  rw [Output.referencesTo, h.labels, labelIn]
  split
  · rfl
  · exact (sources_of_unlabelled (Bool.not_eq_true _ ▸ ‹_›)).symm

theorem hasLabelAt (h : o.Records calls) (a : Int) :
    o.hasLabelAt a = calls.any (Call.labels a) := by
  rw [hasLabelAt_eq_isSome, h.labels, labelIn]
  split <;> simp_all

theorem standsFor (h : o.Records calls) {a : Int} :
    StandsFor o.items.toList i a ↔ StandsFor (added calls) i a := by
  rw [← h.lines]
  refine standsFor_congr ?_
  simp [Output.lines, Item.plain]

theorem add (h : o.Records calls) (hitem : item.hasLabel = false) :
    (o.add item).Records (calls ++ [.add item]) where
  lines := by
    have hplain : ∀ new ∈ [item], new.hasLabel = false := List.forall_mem_singleton.2 hitem
    rw [added_snoc, ← h.lines]
    exact o.lines_addAll_of_plain hplain
  once := h.once
  labels a := (h.labels a).trans (labelIn_snoc_other a rfl rfl).symm
  flags j new hnew := by
    have hitems : (o.add item).items.toList = o.items.toList ++ [item] := Array.toList_push
    have hlength : o.items.toList.length = (added calls).length := by
      rw [← h.lines, Output.lines, List.length_map]
    rw [flaggedOnce_snoc, or_iff_left fun hfixup => Call.noConfusion hfixup.1]
    rw [hitems, List.getElem?_append] at hnew
    split at hnew
    · exact h.flags j new hnew
    · -- the item that is added has not been there when flags were set
      rename_i hlast
      obtain rfl := List.mem_singleton.1 (List.mem_of_getElem? hnew)
      rw [hitem]
      exact iff_of_false Bool.false_ne_true fun hflagged => hlast (hlength ▸ hflagged.lt)

theorem label (h : o.Records calls) (address : Int) (source : Option Int) :
    (o.createLabel address source).Records (calls ++ [.label address source]) where
  lines := by
    rw [added_snoc, ← h.lines]
    exact (List.append_nil _).symm
  once := by
    unfold createLabel
    rw [noteLabel_addresses]
    split
    · exact h.once
    · rename_i hnew
      exact List.nodup_append.2 ⟨h.once, List.pairwise_singleton _ _, fun a ha b hb hab =>
        hnew (List.mem_singleton.1 hb ▸ hab ▸ ha)⟩
  labels a := by
    rw [label?_createLabel, labelIn_snoc, h.referencesTo, h.labels]
  flags j new hnew := by
    rw [flaggedOnce_snoc, or_iff_left fun hfixup => Call.noConfusion hfixup.1]
    exact h.flags j new hnew

theorem fixup (h : o.Records calls) : o.fixup.Records (calls ++ [.fixup]) where
  lines := by
    rw [added_snoc, lines_fixup, h.lines]
    exact (List.append_nil _).symm
  once := by
    rw [labels_fixup]
    exact h.once
  labels a := by
    rw [labelIn_snoc_other a rfl rfl, label?, labels_fixup]
    exact h.labels a
  flags j new hnew := by
    obtain ⟨old, hold, hplain, hflag⟩ := fixup_getElem? hnew
    have haddress : new.address = old.address := (congrArg Item.address hplain :)
    rw [flaggedOnce_snoc, hflag, haddress, h.flags j old hold, h.hasLabelAt, h.standsFor,
      eq_self, true_and]

end Records

/-- Whatever was called, the output holds what the log says. -/
theorem ofCalls_records {calls : List Call}
    (hnew : ∀ item, .add item ∈ calls → item.hasLabel = false) :
    (ofCalls calls).Records calls := by
  induction calls using List.reverseRecOn with
  | nil => exact ⟨rfl, List.nodup_nil, fun _ => rfl, by simp [ofCalls]⟩
  | append_singleton calls c ih =>
      have hrecords := ih fun item hi => hnew item (List.mem_append_left _ hi)
      rw [ofCalls_snoc]
      cases c with
      | add item => exact hrecords.add (hnew item (by simp))
      | label address source => exact hrecords.label address source
      | fixup => exact hrecords.fixup

/-- An output is what its log says: its items, whatever stands for an address, its labels and its
flags. Flags that were just set are not set anew, and no call touches an item but for its flag. -/
theorem ofCalls_equals_log (calls : List Call)
    (hnew : ∀ item, .add item ∈ calls → item.hasLabel = false) :
    (ofCalls calls).lines = added calls ∧
    (∀ a item, (ofCalls calls).get? a = some item ↔
      ∃ i, (ofCalls calls).items[i]? = some item ∧ StandsFor (added calls) i a) ∧
    (∀ a, (ofCalls calls).get? a = none ↔ ∀ item ∈ added calls, item.address ≠ a) ∧
    ((ofCalls calls).labels.map Label.address).Nodup ∧
    (∀ a, (ofCalls calls).label? a = labelIn calls a) ∧
    (∀ i item, (ofCalls calls).items[i]? = some item →
      (item.hasLabel = true ↔ FlaggedOnce calls i item.address)) ∧
    (ofCalls calls).fixup.fixup = (ofCalls calls).fixup ∧
    ∀ (c : Call) (i : Nat) (item : Item), (ofCalls calls).items[i]? = some item →
      ∃ flag, ((ofCalls calls).call c).items[i]? = some { item with hasLabel := flag } := by
  have h := ofCalls_records hnew
  refine ⟨h.lines, fun a item => ?_, fun a => ?_, h.once, h.labels, fun i item hitem => ?_,
    fixup_fixup _, fun c _ _ => call_getElem? _ c⟩
  · rw [get?, find?_reverse_eq_some]
    simp only [h.standsFor, Array.getElem?_toList]
  · have haddress : (ofCalls calls).items.toList.map Item.address =
        (added calls).map Item.address := by
      rw [← h.lines, Output.lines, List.map_map]
      rfl
    rw [get?, List.find?_eq_none]
    simpa using congrArg (a ∉ ·) haddress
  · exact h.flags i item (Array.getElem?_toList ▸ hitem)

/-- An item is flagged, and another one comes to stand for its address. -/
def displacedLog : List Call :=
  [.add { address := 5 }, .label 5 (some 0), .label 5 none, .fixup,
    .add { address := 5, opcodes := [0] }]

theorem ofCalls_displaced :
    (∀ item, .add item ∈ displacedLog → item.hasLabel = false) ∧
    (ofCalls displacedLog).lines = [{ address := 5 }, { address := 5, opcodes := [0] }] ∧
    (ofCalls displacedLog).label? 5 = some ⟨5, [0]⟩ ∧
    ∀ item, (ofCalls displacedLog).items[0]? = some item → item.address = 5 →
      item.hasLabel = true := by
  have hnew : ∀ item, .add item ∈ displacedLog → item.hasLabel = false := by
    simp [displacedLog]
  have hstands : StandsFor (added (displacedLog.take 3)) 0 5 :=
    standsFor_zero.2 ⟨rfl, List.forall_mem_nil _⟩
  obtain ⟨hlines, -, -, -, hlabels, hflags, -, -⟩ := ofCalls_equals_log displacedLog hnew
  refine ⟨hnew, hlines, hlabels 5, fun item hitem haddress => (hflags 0 item hitem).2 ?_⟩
  rw [haddress]
  exact ⟨displacedLog.take 3, displacedLog.drop 4, rfl, rfl, hstands⟩

end RomListing.Output

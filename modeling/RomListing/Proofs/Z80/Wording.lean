import RomListing.Proofs.Wording
import RomListing.Proofs.Z80.Alphabet

/-! # The words of the Z80

A displacement is read with the selector and written by a letter that reads nothing. Behind it the
text goes on with a parenthesis or a comma, which no operand holds.
-/

namespace RomListing

open Cursor (Kin)

namespace Z80

/-- The prefixes and the opcode select. Behind `DD CB` and `FD CB` the displacement stands in front
of the opcode. -/
def parts : List UInt8 → List UInt8 × List UInt8
  | [] => ([], [])
  | lead :: rest =>
    if lead = 0xED ∨ lead = 0xCB then (lead :: rest.take 1, rest.drop 1)
    else if lead = 0xDD ∨ lead = 0xFD then
      if rest.head? = some 0xCB then
        (lead :: 0xCB :: (rest.drop 2).take 1, (rest.drop 1).take 1 ++ rest.drop 3)
      else (lead :: rest.take 1, rest.drop 1)
    else ([lead], rest)

theorem parts_perm (bytes : List UInt8) : ((parts bytes).1 ++ (parts bytes).2).Perm bytes := by
  fun_cases parts bytes with
  | case1 => rfl
  | case2 lead rest | case4 lead rest =>
      exact .of_eq (congrArg (lead :: ·) (List.take_append_drop 1 rest))
  | case3 lead rest _ _ hbits =>
      obtain ⟨behind, rfl⟩ := List.head?_eq_some_iff.1 hbits
      match behind with
      | [] | [d] => rfl
      | d :: opcode :: operands => exact ((List.Perm.swap d opcode operands).cons _).cons _
  | case5 lead rest => rfl

def selectorText (o : Options) : List UInt8 → Option String
  | [opcode] => plainPatterns.lookup opcode.toNat
  | [lead, opcode] =>
    if lead = 0xED then some (extendedPattern o.extended opcode)
    else if lead = 0xCB then some (bitPattern opcode "^s")
    else indexedPattern opcode
  | [_, _, opcode] => some (indexedBitPattern opcode)
  | _ => none

def selectorIndex : List UInt8 → IndexRegister
  | lead :: _ => if lead = 0xDD then .ix else if lead = 0xFD then .iy else .none
  | [] => .none

def shows (letter : Letter) : Bool := letter == .char 'D'

def wording : Wording where
  parts := parts
  text := selectorText
  index := selectorIndex
  varies letter := alphabet.bytes letter != 0 || shows letter
  shows := shows
  closes letter := letter == .char ')' || letter == .char ','

/-- A displacement is written behind its sign, and 0 as nothing. -/
theorem displacementText_cases (o : Options) (b : UInt8) :
    let text := displacementText o (some b.toNat)
    (b.toNat = 0 ∧ text = "") ∨
      (0 < b.toNat ∧ b.toNat < 0x80 ∧ text = "+" ++ o.byteText b.toNat) ∨
      (0x80 ≤ b.toNat ∧ text = "-" ++ o.byteText (0x100 - b.toNat : Nat)) := by
  intro text
  have hlt := b.toNat_lt
  by_cases hzero : b.toNat = 0
  · exact .inl ⟨hzero, by simp [text, displacementText, hzero]⟩
  · by_cases hsign : b.toNat < 0x80
    · have hpositive : ¬signedByte b.toNat < 0 := by
        simp only [signedByte]
        omega
      exact .inr (.inl ⟨by omega, hsign, by simp [text, displacementText, hzero, hpositive]⟩)
    · have hnegative : signedByte b.toNat < 0 := by
        simp only [signedByte]
        omega
      have hsize : (0x100 - b.toNat : Int) = (0x100 - b.toNat : Nat) := by omega
      exact .inr (.inr ⟨by omega, by simp [text, displacementText, hzero, hnegative, hsize]⟩)

theorem closes_symbols : ∀ x ∈ Options.symbols, wording.closes (.char x) = false := by
  have hall : (Options.symbols.all fun x => !wording.closes (.char x)) = true := by decide
  simpa only [List.all_eq_true, Bool.not_eq_true'] using hall

theorem displacementText_faithful (o : Options) : Operand.Faithful wording.closes
    fun b : UInt8 => displacementText o (some b.toNat) where
  unclosed b := by
    refine Operand.Faithful.unclosed_of_subset closes_symbols ?_
    obtain ⟨-, htext⟩ | ⟨-, -, htext⟩ | ⟨-, htext⟩ := displacementText_cases o b
    · simp [htext]
    all_goals
      rw [htext, String.toList_append]
      exact List.append_subset.2 ⟨by decide, o.byteText_subset _⟩
  inj b b' h := by
    have hlt := b.toNat_lt
    have hlt' := b'.toNat_lt
    -- the first character tells which of the cases it is
    have hsign := congrArg (·.toList.head?) h
    obtain ⟨hb, htext⟩ | ⟨-, -, htext⟩ | ⟨hb, htext⟩ := displacementText_cases o b <;>
      obtain ⟨hb', htext'⟩ | ⟨-, -, htext'⟩ | ⟨hb', htext'⟩ := displacementText_cases o b' <;>
      rw [htext, htext'] at h <;> simp [htext, htext'] at hsign
    · exact UInt8.toNat_inj.1 (hb.trans hb'.symm)
    · exact UInt8.toNat_inj.1 (Options.byteText_inj (String.append_right_inj _ |>.1 h))
    · have hsize := Options.byteText_inj (String.append_right_inj _ |>.1 h)
      exact UInt8.toNat_inj.1 (by omega)

theorem tells_displacement {s s' : Setting} {c c' : Cursor} (h : Kin s s' c c') :
    Alphabet.Tells true true wording.closes s s' c c'
      ({ text := displacementText s.options c.displacement }, c)
      ({ text := displacementText s.options c'.displacement }, c') where
  kin := h
  kept := ⟨rfl, rfl⟩
  same := nofun
  unclosed _ := by
    have hform := displacementText_faithful s.options
    obtain ⟨hnone, hnone'⟩ | ⟨b, b', hb, hb'⟩ := h.displacement
    · rw [hnone, hnone']
      exact ⟨nofun, nofun⟩
    · rw [hb, hb']
      exact ⟨hform.unclosed b, hform.unclosed b'⟩
  tells _ _ htext := by
    refine ⟨.refl c c', fun _ => ?_⟩
    obtain ⟨hnone, hnone'⟩ | ⟨b, b', hb, hb'⟩ := h.displacement
    · rw [hnone, hnone']
    · rw [hb, hb'] at htext ⊢
      rw [(displacementText_faithful s.options).inj b b' (Text.ofString_inj htext)]

theorem expand_tells {s s' : Setting} {c c' : Cursor} (h : Kin s s' c c') (letter : Letter) :
    Alphabet.Tells (wording.varies letter) (wording.shows letter) wording.closes s s' c c'
      (expand s letter c) (expand s' letter c') := by
  have hbyte := Operand.Faithful.byte (o := s.options) closes_symbols
  have hword := Operand.Faithful.word (o := s.options) closes_symbols
  have hswap (v w : UInt8 × UInt8) (hvw : (v.2, v.1) = (w.2, w.1)) : v = w :=
    Prod.ext (Prod.mk.inj hvw).2 (Prod.mk.inj hvw).1
  unfold expand
  simp only [h.options, h.opcode, indexName, h.index]
  split
  case h_1 | h_3 | h_5 | h_10 | h_11 | h_12 => exact Operand.tells_same h rfl
  case h_2 => exact Operand.tells_relative h closes_symbols
  case h_4 => exact Operand.tells_absolute h closes_symbols
  case h_6 | h_7 => exact Operand.tells_byte h hbyte rfl rfl
  case h_8 => exact Operand.tells_word h hword rfl rfl
  case h_9 => exact Operand.tells_word h (hword.comp hswap) rfl rfl
  case h_13 => exact tells_displacement h
  case h_14 =>
    have hvaries : wording.varies letter = false := by simp_all [wording, alphabet, shows]
    have hshows : wording.shows letter = false := by simp_all [wording, shows]
    rw [hvaries, hshows]
    exact Operand.tells_same h rfl

/-! ### Patterns -/

def Closed (text : String) : Prop :=
  Pattern.separated wording.varies wording.closes (Pattern.cut '|' (Text.ofString text)).1 = true

instance (text : String) : Decidable (Closed text) := inferInstanceAs (Decidable (_ = true))

theorem closed_plainPatterns : ∀ e ∈ plainPatterns, Closed e.2 := by decide +kernel

theorem closed_indexedPatterns : ∀ e ∈ indexedPatterns, Closed e.2 := by decide +kernel

theorem closed_extendedPatterns : ∀ e ∈ extendedPatterns, Closed e.2 := by decide +kernel

theorem closed_bitOperands : ∀ operand ∈ bitOperands, ∀ lead ∈ bitLeads,
    Closed (lead ++ operand) := by
  decide +kernel

def Shows (text : String) : Prop := (Pattern.letters text).any wording.shows = true

instance (text : String) : Decidable (Shows text) := inferInstanceAs (Decidable (_ = true))

theorem shows_plainPatterns : ∀ e ∈ plainPatterns,
    ¬Shows e.2 ∧ usesDisplacement e.2.toList = false := by
  decide +kernel

/-- Behind an index prefix a displacement is read if and only if it is shown. -/
theorem shows_indexedPatterns : ∀ e ∈ indexedPatterns,
    (Shows e.2 ↔ usesDisplacement e.2.toList = true) := by
  decide +kernel

theorem shows_extendedPatterns : ∀ e ∈ extendedPatterns, ¬Shows e.2 := by decide +kernel

theorem shows_bitOperands : ∀ operand ∈ bitOperands, ∀ lead ∈ bitLeads,
    (Shows (lead ++ operand) ↔ operand ≠ "^s") := by
  decide +kernel

theorem shows_indexedPattern {b : UInt8} {text : String} (h : indexedPattern b = some text) :
    Shows text ↔ usesDisplacement text.toList = true := by
  refine forall_indexedPattern (P := fun text => Shows text ↔ usesDisplacement text.toList = true)
    shows_indexedPatterns (fun e he => ?_) h
  obtain ⟨hshows, huses⟩ := shows_plainPatterns e he
  simp [hshows, huses]

theorem shows_indexedBitPattern (b : UInt8) : Shows (indexedBitPattern b) :=
  forall_indexedBitPattern
    (fun lead hlead => (shows_bitOperands _ (by decide) lead hlead).2 (by decide))
    (fun lead hlead => (shows_bitOperands _ (by decide) lead hlead).2 (by decide)) b

/-! ### Selections -/

structure Holds (c : Cursor) (bytes : List UInt8) (opcode : Int) (index : IndexRegister)
    (displacement : Option UInt8) : Prop where
  taken : c.taken.toList = bytes
  opcode : c.opcode = opcode
  index : c.index = index
  displacement : c.displacement = displacement.map fun b => (b.toNat : Int)

section

variable {s : Setting} {c : Cursor} {bytes : List UInt8} {opcode : Int} {index : IndexRegister}
  {displacement : Option UInt8}

theorem Holds.fetchOpcode (h : Holds c bytes opcode index displacement)
    (ho : (fetchOpcode s c).2.overflow = false) :
    let read := (fetchOpcode s c).1
    Holds (fetchOpcode s c).2 (bytes ++ [read]) read.toNat index displacement where
  taken := by rw [← h.taken]; exact (Cursor.fetch_taken ho).2
  opcode := rfl
  index := (c.fetch_index s).trans h.index
  displacement := (c.fetch_displacement s).trans h.displacement

theorem Holds.fetchDisplacement (h : Holds c bytes opcode index displacement)
    (ho : (fetchDisplacement s c).overflow = false) :
    let read := (c.fetch s).1
    Holds (fetchDisplacement s c) (bytes ++ [read]) opcode index (some read) where
  taken := by rw [← h.taken]; exact (Cursor.fetch_taken ho).2
  opcode := (c.fetch_opcode s).trans h.opcode
  index := (c.fetch_index s).trans h.index
  displacement := rfl

variable {lead : UInt8}

theorem parts_of_index (h : lead = 0xDD ∨ lead = 0xFD) {opcode : UInt8} (hopcode : opcode ≠ 0xCB)
    (operands : List UInt8) : parts (lead :: opcode :: operands) = ([lead, opcode], operands) := by
  obtain rfl | rfl := h <;> simp [parts, hopcode]

theorem selectorText_of_index (h : lead = 0xDD ∨ lead = 0xFD) (o : Options) (opcode : UInt8) :
    selectorText o [lead, opcode] = indexedPattern opcode := by
  obtain rfl | rfl := h <;> rfl

/-- Behind an index prefix the displacement stands in front of the opcode of a bit operation, and
behind any other opcode. -/
theorem selectIndexed_spelled (h : lead = 0xDD ∨ lead = 0xFD)
    (hc : Holds c [lead] opcode (selectorIndex [lead]) none)
    (ho : (selectIndexed s c).cursor.overflow = false) : ∃ selector displacement,
      (selectIndexed s c).Spelled wording s.options selector displacement := by
  revert ho
  unfold selectIndexed
  dsimp only
  split
  · rename_i hbits
    intro ho
    have hmiddle := (Cursor.fetch_taken ho).1
    have hfirst := (Cursor.fetch_taken hmiddle).1
    have hend := ((hc.fetchOpcode hfirst).fetchDisplacement hmiddle).fetchOpcode ho
    refine ⟨[lead, 0xCB, _], some _, fun operands => ?_, rfl, hend.opcode, hend.index,
      hend.displacement, (shows_indexedBitPattern _).symm⟩
    rw [hend.taken, hbits]
    obtain rfl | rfl := h <;> rfl
  · rename_i hbits
    split
    · rename_i hpattern
      intro ho
      have hend := hc.fetchOpcode ho
      refine ⟨[lead, (fetchOpcode s c).1], none, fun operands => ?_, ?_, hend.opcode, hend.index,
        hend.displacement, rfl⟩
      · rw [hend.taken]
        exact parts_of_index h hbits operands
      · exact hpattern.symm.trans (selectorText_of_index h _ _).symm
    · rename_i text hpattern
      have htext := hpattern.symm.trans (selectorText_of_index h s.options _).symm
      have hshows := shows_indexedPattern hpattern
      split
      · rename_i huses
        intro ho
        have hend := (hc.fetchOpcode (Cursor.fetch_taken ho).1).fetchDisplacement ho
        refine ⟨[lead, (fetchOpcode s c).1], some _, fun operands => ?_, htext, hend.opcode,
          hend.index, hend.displacement, (hshows.2 huses).symm⟩
        rw [hend.taken]
        exact parts_of_index h hbits _
      · rename_i huses
        intro ho
        have hend := hc.fetchOpcode ho
        refine ⟨[lead, (fetchOpcode s c).1], none, fun operands => ?_, htext, hend.opcode,
          hend.index, hend.displacement, (Bool.eq_false_iff.2 (mt hshows.1 huses)).symm⟩
        rw [hend.taken]
        exact parts_of_index h hbits operands

theorem not_shows {text : String} (h : ¬Shows text) :
    false = (some text).any fun text => (Pattern.letters text).any wording.shows :=
  (Bool.eq_false_iff.2 h).symm

/-- A first byte that is an index prefix. -/
theorem select_index_spelled (h : lead = 0xDD ∨ lead = 0xFD)
    (hlead : (fetchOpcode s c.begin).1 = lead) (hindex : index = selectorIndex [lead])
    (ho : (selectIndexed s { (fetchOpcode s c.begin).2 with index := index }).cursor.overflow =
      false) : ∃ selector displacement,
      (selectIndexed s { (fetchOpcode s c.begin).2 with index := index }).Spelled wording s.options
        selector displacement := by
  obtain ⟨n, -, -, hreads, -⟩ :=
    selectIndexed_selects s { (fetchOpcode s c.begin).2 with index := index }
  have hbegin : Holds c.begin [] c.opcode .none none := ⟨rfl, rfl, rfl, rfl⟩
  have hfirst := hbegin.fetchOpcode (hreads.complete ho)
  exact selectIndexed_spelled h
    ⟨hlead ▸ hfirst.taken, hfirst.opcode, hindex, hfirst.displacement⟩ ho

theorem select_spelled (ho : (select s c.begin).cursor.overflow = false) :
    ∃ selector displacement,
      (select s c.begin).Spelled wording s.options selector displacement := by
  have hbegin : Holds c.begin [] c.opcode .none none := ⟨rfl, rfl, rfl, rfl⟩
  revert ho
  unfold select
  dsimp only
  split
  · rename_i hlead
    intro ho
    have hend := (hbegin.fetchOpcode (Cursor.fetch_taken ho).1).fetchOpcode ho
    have hshows := forall_extendedPattern (P := (¬Shows ·)) shows_extendedPatterns (by decide)
    refine ⟨[0xED, _], none, fun operands => ?_, rfl, hend.opcode, hend.index, hend.displacement,
      not_shows (hshows _ _)⟩
    rw [hend.taken, hlead]
    rfl
  split
  · rename_i hlead
    intro ho
    have hend := (hbegin.fetchOpcode (Cursor.fetch_taken ho).1).fetchOpcode ho
    have hshows := forall_bitPattern (P := (¬Shows ·)) fun lead hl =>
      mt (shows_bitOperands "^s" (by decide) lead hl).1 (not_not_intro rfl)
    refine ⟨[0xCB, _], none, fun operands => ?_, rfl, hend.opcode, hend.index, hend.displacement,
      not_shows (hshows _)⟩
    rw [hend.taken, hlead]
    rfl
  split
  · rename_i hlead
    exact select_index_spelled (.inl rfl) hlead rfl
  split
  · rename_i hlead
    exact select_index_spelled (.inr rfl) hlead rfl
  · rename_i hext hbits hix hiy
    intro ho
    have hend := hbegin.fetchOpcode ho
    refine ⟨[(fetchOpcode s c.begin).1], none, fun operands => ?_, rfl, hend.opcode, ?_,
      hend.displacement, ?_⟩
    · rw [hend.taken]
      simp [wording, parts, hext, hbits, hix, hiy]
    · rw [hend.index]
      simp [wording, selectorIndex, hix, hiy]
    · cases hl : plainPatterns.lookup (fetchOpcode s c.begin).1.toNat with
      | none => rfl
      | some text => exact not_shows (shows_plainPatterns _ (mem_of_lookup hl)).1

end

theorem words : instructionSet.Words wording where
  caret := rfl
  expand := expand_tells
  separated _ _ _ h := forall_selected (P := Closed) closed_plainPatterns closed_indexedPatterns
    closed_extendedPatterns (by decide) closed_bitOperands h
  select _ _ := select_spelled

end Z80

end RomListing

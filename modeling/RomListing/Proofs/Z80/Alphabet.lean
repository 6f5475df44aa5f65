import RomListing.Proofs.Decoding
import RomListing.Z80.Instructions

/-! # The Z80 is sound

An instruction takes at most four bytes. Its prefixes, the opcode and a displacement are read
when the pattern is selected, the other operands when it is expanded.
-/

namespace RomListing.Z80

def alphabet : Alphabet where
  bytes
    | .char 'r' | .char 'B' | .char 'N' => 1
    | .char 'L' | .char 'W' | .char 'w' => 2
    | _ => 0
  isLabel
    | .char 'r' | .char 'L' => true
    | _ => false

theorem caretFree_registers (n : Nat) : Text.CaretFree (registers.getD n "") := by
  match n with
  | 0 | 1 | 2 | 3 | 4 | 5 | 6 | 7 => decide
  | n + 8 => exact show Text.CaretFree "" by decide

theorem caretFree_displacementText (o : Options) (d : Option Int) :
    Text.CaretFree (displacementText o d) := by
  have hbyte := o.caretFree_byteText
  unfold displacementText
  split
  · decide
  · split
    · decide
    · split <;> simp only [Text.caretFree_append, hbyte] <;> decide

theorem acts_indexName (s : Setting) (c : Cursor) {ix iy : String} (hx : Text.CaretFree ix)
    (hy : Text.CaretFree iy) : Alphabet.Acts s c 0 false (indexName c ix iy, c) := by
  unfold indexName
  split
  · exact Operand.acts_plain s c hx
  · exact Operand.acts_plain s c hy

theorem expand_acts (s : Setting) (letter : Letter) (c : Cursor) :
    Alphabet.Acts s c (alphabet.bytes letter) (alphabet.isLabel letter) (expand s letter c) := by
  have hbyte := s.options.caretFree_byteText
  have hword := s.options.caretFree_wordText
  unfold expand
  dsimp only
  split
  case h_1 => exact Operand.acts_plain s c (Text.caretFree_decimal _)
  case h_2 => exact Operand.acts_relative s c
  case h_3 => exact Operand.acts_plain s c (hbyte _)
  case h_4 => exact Operand.acts_absolute s c
  case h_5 => exact Operand.acts_plain s c (caretFree_registers _)
  case h_6 => exact Operand.acts_byte s c hbyte
  case h_7 =>
    exact ⟨Text.not_mem_ofString.2 (hbyte _), c.fetch_reads s, fun _ => ⟨rfl, rfl⟩, nofun⟩
  case h_8 => exact Operand.acts_word s c hword
  case h_9 =>
    exact Operand.acts_number s c _ ((c.fetch_reads s).trans (Cursor.fetch_reads s _)) (hword _)
  case h_10 | h_11 | h_12 => exact acts_indexName s c (by decide) (by decide)
  case h_13 => exact Operand.acts_plain s c (caretFree_displacementText _ _)
  case h_14 =>
    have hb : alphabet.bytes letter = 0 := by simp_all [alphabet]
    have hl : alphabet.isLabel letter = false := by simp_all [alphabet]
    rw [hb, hl]
    exact Operand.acts_empty s c

/-! ## Patterns -/

def bitLeads : List String := shifts.map (· ++ " ") ++ ["bit ^b,", "res ^b,", "set ^b,"]

theorem exists_bitLead (b : UInt8) (operand : String) :
    ∃ lead ∈ bitLeads, bitPattern b operand = lead ++ operand := by
  unfold bitPattern
  split
  · rename_i h
    have hb : (b / 8).toNat < 8 := by
      have h : b.toNat < 64 := UInt8.lt_iff_toNat_lt.1 h
      rw [UInt8.toNat_div]
      show b.toNat / 8 < 8
      omega
    refine ⟨_, List.mem_append_left _ (List.mem_map.2 ⟨_, ?_, rfl⟩), rfl⟩
    rw [List.getD_eq_getElem?_getD, List.getElem?_eq_getElem hb]
    exact List.getElem_mem hb
  · split
    · exact ⟨"bit ^b,", by decide, rfl⟩
    · split
      · exact ⟨"res ^b,", by decide, rfl⟩
      · exact ⟨"set ^b,", by decide, rfl⟩

def bitOperands : List String := ["^s", "(^X^D)", "(^X^D),^s"]

/-! What holds of the texts in a table holds of the texts that are chosen from it. -/

section

variable {P : String → Prop}

theorem forall_extendedPattern (h : ∀ e ∈ extendedPatterns, P e.2) (hnop : P "nop")
    (allowNext : Bool) (b : UInt8) : P (extendedPattern allowNext b) := by
  unfold extendedPattern
  split
  · exact hnop
  · cases hl : extendedPatterns.lookup b.toNat with
    | none => exact hnop
    | some text => exact forall_lookup h hl

theorem forall_indexedPattern (hindexed : ∀ e ∈ indexedPatterns, P e.2)
    (hplain : ∀ e ∈ plainPatterns, P e.2) {b : UInt8} {text : String}
    (h : indexedPattern b = some text) : P text := by
  unfold indexedPattern at h
  cases hl : indexedPatterns.lookup b.toNat with
  | none =>
      rw [hl] at h
      exact forall_lookup hplain h
  | some t =>
      rw [hl] at h
      cases h
      exact forall_lookup hindexed hl

theorem forall_bitPattern {operand : String} (h : ∀ lead ∈ bitLeads, P (lead ++ operand))
    (b : UInt8) : P (bitPattern b operand) := by
  obtain ⟨lead, hlead, he⟩ := exists_bitLead b operand
  rw [he]
  exact h lead hlead

theorem forall_indexedBitPattern (h : ∀ lead ∈ bitLeads, P (lead ++ "(^X^D)"))
    (hs : ∀ lead ∈ bitLeads, P (lead ++ "(^X^D),^s")) (b : UInt8) : P (indexedBitPattern b) := by
  unfold indexedBitPattern
  dsimp only
  split
  · exact forall_bitPattern h b
  · obtain ⟨lead, hlead, he⟩ := exists_bitLead b "(^X^D)"
    rw [he, String.append_assoc]
    exact hs lead hlead

/-- What holds of all texts that can be chosen holds of the text that is selected. -/
theorem forall_selected (hplain : ∀ e ∈ plainPatterns, P e.2)
    (hindexed : ∀ e ∈ indexedPatterns, P e.2) (hextended : ∀ e ∈ extendedPatterns, P e.2)
    (hnop : P "nop") (hbits : ∀ operand ∈ bitOperands, ∀ lead ∈ bitLeads, P (lead ++ operand))
    {s : Setting} {c : Cursor} {text : String} (h : (select s c).text = some text) : P text := by
  have hindex {c : Cursor} (h : (selectIndexed s c).text = some text) : P text := by
    unfold selectIndexed at h
    dsimp only at h
    split at h
    · cases h
      exact forall_indexedBitPattern (hbits _ (by decide)) (hbits _ (by decide)) _
    split at h
    · cases h
    · rename_i found hfound
      cases h
      exact forall_indexedPattern hindexed hplain hfound
  unfold select at h
  dsimp only at h
  split at h
  · cases h
    exact forall_extendedPattern hextended hnop _ _
  split at h
  · cases h
    exact forall_bitPattern (hbits _ (by decide)) _
  split at h
  · exact hindex h
  split at h
  · exact hindex h
  · exact forall_lookup hplain h

end

/-- The room that a pattern has behind an index prefix: a displacement takes a byte of it. -/
def indexedRoom (text : String) : Nat := if usesDisplacement text.toList then 1 else 2

theorem indexedRoom_le (text : String) : indexedRoom text ≤ 2 := by
  unfold indexedRoom
  split <;> omega

theorem fits_plainPatterns :
    ∀ e ∈ plainPatterns, alphabet.fits (indexedRoom e.2) e.2 = true := by
  decide +kernel

theorem fits_indexedPatterns :
    ∀ e ∈ indexedPatterns, alphabet.fits (indexedRoom e.2) e.2 = true := by
  decide +kernel

theorem fits_extendedPatterns :
    ∀ e ∈ extendedPatterns, alphabet.fits 2 e.2 = true := by decide +kernel

theorem fits_bitOperands : ∀ operand ∈ bitOperands, ∀ lead ∈ bitLeads,
    alphabet.fits 0 (lead ++ operand) = true := by decide +kernel

/-! ## Selection -/

section

variable (s : Setting) (c : Cursor)

theorem fetchOpcode_reads : c.Reads s 1 (fetchOpcode s c).2 :=
  (c.fetch_reads s).registers _ _ _

theorem fetchDisplacement_reads : c.Reads s 1 (fetchDisplacement s c) :=
  (c.fetch_reads s).registers _ _ _

theorem selectIndexed_selects : ∃ n, 0 < n ∧ n ≤ 3 ∧ c.Reads s n (selectIndexed s c).cursor ∧
    (selectIndexed s c).Fits alphabet (3 - n) := by
  have hopcode := fetchOpcode_reads s c
  unfold selectIndexed
  dsimp only
  split
  · refine ⟨3, by decide, by decide, (hopcode.trans (fetchDisplacement_reads s _)).trans
      (fetchOpcode_reads s _), fun text htext => ?_⟩
    cases htext
    exact forall_indexedBitPattern (P := (alphabet.fits 0 · = true))
      (fits_bitOperands _ (by decide)) (fits_bitOperands _ (by decide)) _
  · split
    · exact ⟨1, by decide, by decide, hopcode, nofun⟩
    · rename_i text hpattern
      have hroom := forall_indexedPattern
        (P := fun text => alphabet.fits (indexedRoom text) text = true) fits_indexedPatterns
        fits_plainPatterns hpattern
      unfold indexedRoom at hroom
      split
      · rename_i hd
        rw [if_pos hd] at hroom
        refine ⟨2, by decide, by decide, hopcode.trans (fetchDisplacement_reads s _),
          fun t ht => ?_⟩
        cases ht
        exact hroom
      · rename_i hd
        rw [if_neg hd] at hroom
        refine ⟨1, by decide, by decide, hopcode, fun t ht => ?_⟩
        cases ht
        exact hroom

theorem select_indexed_selects (index : IndexRegister) :
    let x := selectIndexed s { (fetchOpcode s c).2 with index := index }
    ∃ n, 0 < n ∧ n ≤ 4 ∧ c.Reads s n x.cursor ∧ x.Fits alphabet (4 - n) := by
  intro x
  obtain ⟨n, hpos, hle, hreads, hfits⟩ :=
    selectIndexed_selects s { (fetchOpcode s c).2 with index := index }
  have hprefix : c.Reads s 1 { (fetchOpcode s c).2 with index := index } :=
    (c.fetch_reads s).registers _ _ _
  have hroom : 3 - n = 4 - (1 + n) := by omega
  rw [hroom] at hfits
  exact ⟨1 + n, by omega, by omega, hprefix.trans hreads, hfits⟩

theorem select_selects : ∃ n, 0 < n ∧ n ≤ 4 ∧ c.Reads s n (select s c).cursor ∧
    (select s c).Fits alphabet (4 - n) := by
  have hopcode := fetchOpcode_reads s c
  unfold select
  dsimp only
  split
  · refine ⟨2, by decide, by decide, hopcode.trans (fetchOpcode_reads s _), fun text htext => ?_⟩
    cases htext
    exact forall_extendedPattern (P := (alphabet.fits 2 · = true)) fits_extendedPatterns
      (by decide) _ _
  · split
    · refine ⟨2, by decide, by decide, hopcode.trans (fetchOpcode_reads s _),
        fun text htext => ?_⟩
      cases htext
      have hfits := forall_bitPattern (P := (alphabet.fits 0 · = true))
        (fits_bitOperands "^s" (by decide))
      exact Alphabet.fits_mono (hfits _) (by decide)
    · split
      · exact select_indexed_selects s c .ix
      · split
        · exact select_indexed_selects s c .iy
        · refine ⟨1, by decide, by decide, hopcode, fun text htext => ?_⟩
          have hfits := forall_lookup
            (P := fun text => alphabet.fits (indexedRoom text) text = true) fits_plainPatterns htext
          exact Alphabet.fits_mono hfits (Nat.le_succ_of_le (indexedRoom_le text))

end

/-! ## Views -/

section

variable {s s' : Setting} {f : Cursor → Cursor} (hf : Cursor.View s s' f)
include hf

theorem fetchOpcode_view (c : Cursor) :
    fetchOpcode s' (f c) = ((fetchOpcode s c).1, f (fetchOpcode s c).2) := by
  simp only [fetchOpcode, hf.fetch, hf.setOpcode]

theorem fetchDisplacement_view (c : Cursor) :
    fetchDisplacement s' (f c) = f (fetchDisplacement s c) := by
  simp only [fetchDisplacement, hf.fetch, hf.setDisplacement]

theorem selectIndexed_view (c : Cursor) : selectIndexed s' (f c) =
    { selectIndexed s c with cursor := f (selectIndexed s c).cursor } := by
  simp only [selectIndexed, fetchOpcode_view hf, fetchDisplacement_view hf]
  split
  · rfl
  · split
    · rfl
    · split <;> rfl

theorem select_view (c : Cursor) :
    select s' (f c) = { select s c with cursor := f (select s c).cursor } := by
  simp only [select, fetchOpcode_view hf, hf.setIndex, selectIndexed_view hf, hf.options]
  split
  · rfl
  · split
    · rfl
    · split
      · rfl
      · split <;> rfl

theorem expand_view (letter : Letter) (c : Cursor) :
    expand s' letter (f c) = ((expand s letter c).1, f (expand s letter c).2) := by
  unfold expand
  simp only [hf.options, hf.opcode, hf.displacement, indexName, hf.index]
  split
  case h_2 => exact hf.relative c
  case h_4 => exact hf.absolute c
  case h_6 => exact hf.byte _ c
  case h_7 | h_9 => simp only [hf.fetch]
  case h_8 => exact hf.word _ c
  all_goals rfl

end

theorem natural : instructionSet.Natural where
  select := select_view
  expand := expand_view

/-! ## Reading past the overflow mark -/

section

variable (s : Setting) (c : Cursor)

/-- The first byte wipes out what an earlier instruction left in the cursor. -/
theorem fetchOpcode_begin : fetchOpcode s c.begin =
    let x := fetchOpcode s (Cursor.begin { offset := c.offset })
    (x.1, x.2.spill c.overflow) := by
  obtain ⟨hbyte, hrest⟩ := c.fetch_begin s
  simp only [fetchOpcode]
  rw [hbyte, hrest]

theorem select_begin : select s c.begin =
    let x := select s (Cursor.begin { offset := c.offset })
    { x with cursor := x.cursor.spill c.overflow } := by
  have hview := Cursor.view_spill s c.overflow
  unfold select
  rw [fetchOpcode_begin s c]
  simp only [fetchOpcode_view hview, hview.setIndex, selectIndexed_view hview]
  split
  · rfl
  · split
    · rfl
    · split
      · rfl
      · split <;> rfl

end

theorem sound : instructionSet.Sound alphabet 4 where
  mask := rfl
  describes s := ⟨expand_acts s, fun letter o => expand_view (Cursor.view_spill s o) letter⟩
  selects := select_selects
  anew := select_begin

end RomListing.Z80

import RomListing.Proofs.Listing.Legible
import RomListing.Proofs.Scan

/-! # Finished instruction texts

The text of an instruction is finished: all marks of its pattern have been replaced, and nothing
of the notation of patterns is left in it. The token is an operand in the format of its letter:
a byte, a word or a label as the options write it, decorated as its addressing mode asks.
-/

namespace RomListing

/-! ## Formats of operands -/

namespace Operand

inductive Style where
  | byte
  | word
  | label

/-- How an operand is written, with the decoration of its addressing mode. -/
structure Format where
  style : Style
  lead : String := ""
  trail : String := ""

/-- The characters of operands: those of numbers and labels, of decorations and of registers. -/
def symbols : List Char := Options.symbols ++ "#(),abcdehilxy".toList

end Operand

def Options.styled (o : Options) : Operand.Style → Int → String
  | .byte => o.byteText
  | .word => o.wordText
  | .label => o.labelName

def Options.formatted (o : Options) (f : Operand.Format) (v : Int) : String :=
  f.lead ++ o.styled f.style v ++ f.trail

def Z80.format : Letter → Option Operand.Format
  | .char 'B' => some { style := .byte }
  | .char 'W' | .char 'w' => some { style := .word }
  | .char 'r' | .char 'L' => some { style := .label }
  | _ => none

def Mos6502.format : Letter → Option Operand.Format
  | .char 'I' => some { style := .byte, lead := "#" }
  | .char 'Z' => some { style := .byte }
  | .char 'X' => some { style := .byte, trail := ",x" }
  | .char 'Y' => some { style := .byte, trail := ",y" }
  | .char 'N' => some { style := .byte, lead := "(", trail := ",x)" }
  | .char 'M' => some { style := .byte, lead := "(", trail := "),y" }
  | .char 'A' => some { style := .word }
  | .char 'U' => some { style := .word, trail := ",x" }
  | .char 'V' => some { style := .word, trail := ",y" }
  | .char 'P' => some { style := .word, lead := "(", trail := ")" }
  | .char 'J' | .char 'R' => some { style := .label }
  | _ => none

def Processor.format : Processor → Letter → Option Operand.Format
  | z80 => Z80.format
  | mos6502 => Mos6502.format

namespace Operand

theorem options_subset {cs : List Char} (h : cs ⊆ Options.symbols) : cs ⊆ symbols :=
  List.Subset.trans h (List.subset_append_left _ _)

theorem formatted_subset (o : Options) {f : Format} (hlead : f.lead.toList ⊆ symbols)
    (htrail : f.trail.toList ⊆ symbols) (v : Int) : (o.formatted f v).toList ⊆ symbols := by
  have hstyled : (o.styled f.style v).toList ⊆ symbols := by
    cases f.style with
    | byte => exact options_subset (o.byteText_subset v)
    | word => exact options_subset (o.wordText_subset v)
    | label => exact options_subset (o.labelName_subset v)
  unfold Options.formatted
  rw [String.toList_append, String.toList_append]
  exact List.append_subset.2 ⟨List.append_subset.2 ⟨hlead, hstyled⟩, htrail⟩

/-- A replacement made of the characters of operands. If it names a number, it is that number in
the format. -/
structure Formatted (o : Options) (f : Option Format) (r : Replacement) : Prop where
  made : ∀ l ∈ r.text, ∃ c ∈ symbols, l = .char c
  named : ∀ v, r.named = some v → ∃ format, f = some format ∧ r.text = o.formatted format v

theorem made_ofString {text : String} (h : text.toList ⊆ symbols) :
    ∀ l ∈ Text.ofString text, ∃ c ∈ symbols, l = .char c := by
  intro l hl
  obtain ⟨c, hc, rfl⟩ := List.mem_map.1 hl
  exact ⟨c, h hc, rfl⟩

variable {s : Setting} {o : Options}

theorem formatted_plain {text : String} (h : text.toList ⊆ symbols) (f : Option Format)
    (remark : Option Text) : Formatted o f { text := text, remark := remark } where
  made := made_ofString h
  named v hv := by simp [Replacement.named] at hv

theorem formatted_number {f : Format} (hlead : f.lead.toList ⊆ symbols)
    (htrail : f.trail.toList ⊆ symbols) {text : String} {v : Int} (h : text = o.formatted f v) :
    Formatted o (some f) (number text v) where
  made := made_ofString (h ▸ formatted_subset o hlead htrail v)
  named w hw := by
    unfold Replacement.named at hw
    split at hw
    · cases hw
    · cases hw
      exact ⟨f, rfl, congrArg Text.ofString h⟩

theorem formatted_label (s : Setting) (c : Cursor) (address : Int) :
    Formatted s.options (some { style := .label }) (label s c address) where
  made := made_ofString (options_subset (s.options.labelName_subset _))
  named v hv := by
    refine ⟨_, rfl, ?_⟩
    rw [label_text hv]
    simp [Options.formatted, Options.styled]

end Operand

namespace Z80

open Operand

theorem registers_subset (n : Nat) : (registers.getD n "").toList ⊆ symbols := by
  match n with
  | 0 | 1 | 2 | 3 | 4 | 5 | 6 | 7 => decide
  | n + 8 => exact List.nil_subset _

theorem displacementText_subset (o : Options) (d : Option Int) :
    (displacementText o d).toList ⊆ symbols := by
  have hbyte (v : Int) := options_subset (o.byteText_subset v)
  unfold displacementText
  split
  · exact List.nil_subset _
  · split
    · exact List.nil_subset _
    · split
      · rw [String.toList_append]
        exact List.append_subset.2 ⟨by decide, hbyte _⟩
      · rw [String.toList_append]
        exact List.append_subset.2 ⟨by decide, hbyte _⟩

theorem formatted_indexName (o : Options) (c : Cursor) {ix iy : String} (hx : ix.toList ⊆ symbols)
    (hy : iy.toList ⊆ symbols) (f : Option Format) : Formatted o f (indexName c ix iy) := by
  unfold indexName
  split
  · exact formatted_plain hx f none
  · exact formatted_plain hy f none

theorem expand_formatted (s : Setting) (letter : Letter) (c : Cursor) :
    Formatted s.options (format letter) (expand s letter c).1 := by
  have hempty : "".toList ⊆ symbols := List.nil_subset _
  unfold expand
  dsimp only
  split
  case h_1 => exact formatted_plain (options_subset (Options.decimal_subset 0 _)) _ none
  case h_2 | h_4 => exact formatted_label s _ _
  case h_3 => exact formatted_plain (options_subset (Options.byteText_subset _ _)) _ none
  case h_5 => exact formatted_plain (registers_subset _) _ none
  case h_6 | h_8 | h_9 =>
    exact formatted_number hempty hempty (by simp [Options.formatted, Options.styled])
  case h_7 => exact formatted_plain (options_subset (Options.byteText_subset _ _)) _ _
  case h_10 | h_11 | h_12 => exact formatted_indexName _ c (by decide) (by decide) _
  case h_13 => exact formatted_plain (displacementText_subset _ _) _ none
  case h_14 => exact formatted_plain hempty _ none

end Z80

namespace Mos6502

open Operand

theorem expand_formatted (s : Setting) (letter : Letter) (c : Cursor) :
    Formatted s.options (format letter) (expand s letter c).1 := by
  have hempty : "".toList ⊆ symbols := List.nil_subset _
  unfold expand
  dsimp only
  split
  case h_11 | h_12 => exact formatted_label s _ _
  case h_13 => exact formatted_plain hempty _ none
  all_goals
    exact formatted_number (by decide) (by decide) (by simp [Options.formatted, Options.styled])

end Mos6502

theorem Processor.expand_formatted (q : Processor) (s : Setting) (letter : Letter) (c : Cursor) :
    Operand.Formatted s.options (q.format letter) (q.instructionSet.expand s letter c).1 := by
  cases q with
  | z80 => exact Z80.expand_formatted s letter c
  | mos6502 => exact Mos6502.expand_formatted s letter c

/-! ## Patterns -/

namespace Pattern

/-- The characters of a text that belong to no mark. -/
def copied : Text → Text
  | .char '^' :: _ :: rest => copied rest
  | l :: rest => l :: copied rest
  | [] => []

theorem copied_cons {l : Letter} (h : l ≠ .char '^') (rest : Text) :
    copied (l :: rest) = l :: copied rest := by
  rw [copied]
  intros
  contradiction

theorem copied_subset (t : Text) : copied t ⊆ t := by
  fun_induction copied t with
  | case1 letter rest ih => exact List.Subset.trans ih (by simp)
  | case2 l rest _ ih => exact List.cons_subset_cons l ih
  | case3 => exact List.Subset.refl []

theorem not_mem_cut (bar : Char) (t : Text) : .char bar ∉ (cut bar t).1 := by
  induction t with
  | nil => simp [cut]
  | cons l rest ih =>
      unfold cut
      split
      · simp
      · rename_i hl
        simp [ih, Ne.symm hl]

/-- A scan that may replace all marks writes what belongs to no mark and the replacements. -/
theorem mem_scan {e : Expander} {left written : Nat} {text : Text} {c : Cursor}
    (h : (marks text).length ≤ left) {l : Letter} (hl : l ∈ (scan e left written text c).text) :
    l ∈ copied text ∨
      ∃ t ∈ (scan e left written text c).substitutions, l ∈ t.replacement.text := by
  fun_induction scan e left written text c with
  | case1 left written letter rest c r c' hr s ih =>
      have hrest : (marks rest).length ≤ left := by
        simpa [marks] using h
      rcases List.mem_append.1 hl with hl | hl
      · exact .inr ⟨_, List.mem_cons_self, hl⟩
      · rcases ih hrest hl with hl | ⟨t, ht, hl⟩
        · exact .inl hl
        · exact .inr ⟨t, List.mem_cons_of_mem _ ht, hl⟩
  | case2 left written l' rest c hmark s ih =>
      obtain hcopied | ⟨rfl, rfl | rfl⟩ := copied_cases hmark
      · rw [marks_cons rest hcopied] at h
        rw [copied_cons hcopied]
        rcases List.mem_cons.1 hl with rfl | hl
        · exact .inl List.mem_cons_self
        · rcases ih h hl with hl | hl
          · exact .inl (List.mem_cons_of_mem _ hl)
          · exact .inr hl
      · exact .inl (by simpa [s, scan, copied] using hl)
      · have hnone : marks (.char '^' :: rest) = [] := List.length_eq_zero_iff.1 (by omega)
        cases rest with
        | nil => exact .inl (by simpa [s, scan, copied] using hl)
        | cons letter more => simp [marks] at hnone
  | case3 => cases hl

/-- All carets of a pattern belong to marks. -/
def wellMarked (text : String) : Bool :=
  !(copied (cut '|' (Text.ofString text)).1).contains (.char '^')

end Pattern

open Pattern (wellMarked)

namespace Z80

theorem wellMarked_plainPatterns : ∀ e ∈ plainPatterns, wellMarked e.2 = true := by
  decide +kernel

theorem wellMarked_indexedPatterns : ∀ e ∈ indexedPatterns, wellMarked e.2 = true := by
  decide +kernel

theorem wellMarked_extendedPatterns : ∀ e ∈ extendedPatterns, wellMarked e.2 = true := by
  decide +kernel

theorem wellMarked_bitOperands : ∀ operand ∈ bitOperands, ∀ lead ∈ bitLeads,
    wellMarked (lead ++ operand) = true := by decide +kernel

end Z80

theorem Mos6502.wellMarked_patterns : ∀ e ∈ patterns, wellMarked e.2 = true := by
  decide +kernel

theorem Processor.select_wellMarked (q : Processor) {s : Setting} {c : Cursor} {text : String}
    (h : (q.instructionSet.select s c).text = some text) : wellMarked text = true := by
  cases q with
  | z80 =>
      exact Z80.forall_selected (P := (wellMarked · = true)) Z80.wellMarked_plainPatterns
        Z80.wellMarked_indexedPatterns Z80.wellMarked_extendedPatterns (by decide)
        Z80.wellMarked_bitOperands h
  | mos6502 => exact forall_lookup (P := (wellMarked · = true)) Mos6502.wellMarked_patterns h

/-! ## Instructions -/

open Pattern (marks maxMarks)

/-- An instruction is one scan of its pattern, unless its opcode is undefined. -/
theorem InstructionSet.Sound.decode_scans {cpu : InstructionSet} {a : Alphabet} {longest : Nat}
    (h : cpu.Sound a longest) (s : Setting) (c : Cursor) :
    let x := cpu.select s c.begin
    let item := (cpu.decode s c).item
    (item.text = cpu.undefinedText ∧ item.hasSymbol = false) ∨
      ∃ opcodes, item = { ((Pattern.scan (cpu.expand s) maxMarks 0 x.pattern.text
        x.cursor).expansion (cpu.draft s c) []).item with opcodes := opcodes } := by
  intro x item
  have hnone : Letter.char '^' ∉ ([] : Text) := by simp
  have hitem : item = { (cpu.expansion s c).item with
      opcodes := (cpu.expansion s c).cursor.taken.toList } := by
    simp only [item, cpu.decode_eq]
  obtain ⟨hempty, hx⟩ | ⟨hdraft, -, hx⟩ := h.expansion_cases s c
  · have htext : (cpu.draft s c).text = cpu.undefinedText := by
      unfold InstructionSet.draft
      simp [hempty]
    rw [hitem, hx]
    exact .inl ⟨htext, rfl⟩
  · have hscan := Pattern.expandFrom_scans (h.describes s).caretFree maxMarks x.cursor hnone
      hdraft
    rw [hitem, hx]
    exact .inr ⟨_, by rw [Pattern.expand, hscan]; rfl⟩

namespace Processor

variable (q : Processor) (s : Setting) (c : Cursor)

theorem marks_length :
    (marks (q.instructionSet.select s c.begin).pattern.text).length ≤ maxMarks := by
  obtain ⟨n, -, -, -, hfits⟩ := q.sound.selects s c.begin
  exact (Alphabet.allows_iff.1 hfits.allows).2.1

/-- What a pattern copies holds neither a caret nor a bar. -/
theorem pattern_clean :
    let copied := Pattern.copied (q.instructionSet.select s c.begin).pattern.text
    .char '^' ∉ copied ∧ .char '|' ∉ copied := by
  intro copied
  obtain ⟨n, -, -, -, hfits⟩ := q.sound.selects s c.begin
  simp only [copied, hfits.pattern_text]
  cases hx : (q.instructionSet.select s c.begin).text with
  | none => simp [Pattern.copied]
  | some text =>
      have hcarets := q.select_wellMarked hx
      unfold wellMarked at hcarets
      refine ⟨?_, fun hbar => Pattern.not_mem_cut '|' _ (Pattern.copied_subset _ hbar)⟩
      simpa using hcarets

theorem decode_clean : let text := (q.instructionSet.decode s c).item.text
    .char '^' ∉ text ∧ .char '|' ∉ text := by
  intro text
  obtain ⟨hundefined, -⟩ | ⟨opcodes, hitem⟩ := q.sound.decode_scans s c
  · simp only [text, hundefined]
    cases q <;> decide
  · obtain ⟨hcaret, hbar⟩ := q.pattern_clean s c
    have habsent {ch : Char}
        (hcopied : .char ch ∉ Pattern.copied (q.instructionSet.select s c.begin).pattern.text)
        (hsymbols : ch ∉ Operand.symbols) : .char ch ∉ text := by
      intro hl
      simp only [text, hitem, Pattern.Scan.expansion, List.nil_append] at hl
      rcases Pattern.mem_scan (q.marks_length s c) hl with hl | ⟨t, ht, hl⟩
      · exact hcopied hl
      · obtain ⟨d, hd⟩ := Pattern.scan_answers _ _ _ _ _ t ht
        rw [hd] at hl
        obtain ⟨ch', hmem, hsame⟩ := (q.expand_formatted s t.letter d).made _ hl
        exact hsymbols (Letter.char.inj hsame ▸ hmem)
    exact ⟨habsent hcaret (by decide), habsent hbar (by decide)⟩

/-- The token of an instruction is the operand of one of its letters, in the format of the
letter. -/
theorem decode_token_formatted
    (hsymbol : (q.instructionSet.decode s c).item.hasSymbol = true) :
    let letters := marks (q.instructionSet.select s c.begin).pattern.text
    let item := (q.instructionSet.decode s c).item
    ∃ letter ∈ letters, ∃ format v position length,
      q.format letter = some format ∧ item.symbolValue = some v ∧
        item.tokenPosition = some position ∧ item.tokenLength = some length ∧
        0 ≤ position ∧ position + length ≤ item.text.length ∧
        (item.text.drop position.toNat).take length.toNat = s.options.formatted format v := by
  intro letters item
  obtain ⟨-, hplain⟩ | ⟨opcodes, hitem⟩ := q.sound.decode_scans s c
  · rw [hplain] at hsymbol
    cases hsymbol
  · let scan := Pattern.scan (q.instructionSet.expand s) maxMarks 0
      (q.instructionSet.select s c.begin).pattern.text (q.instructionSet.select s c.begin).cursor
    have hlast : (Pattern.lastNamed scan.substitutions).isSome = true := by
      rw [hitem] at hsymbol
      exact hsymbol
    obtain ⟨t, ht⟩ := Option.isSome_iff_exists.1 hlast
    have hmem := (Pattern.named_of_lastNamed ht).1
    obtain ⟨v, hv, -, hvalue, hposition, hlength⟩ :=
      Pattern.Scan.expansion_token ht (q.instructionSet.draft s c) []
    obtain ⟨d, hd⟩ := Pattern.scan_answers _ _ _ _ _ t hmem
    obtain ⟨before, after, hslice, hbefore⟩ := Pattern.scan_slices _ _ _ _ _ t hmem
    obtain ⟨format, hformat, hwritten⟩ := (q.expand_formatted s t.letter d).named v (hd ▸ hv)
    rw [← hd] at hwritten
    have hletter : t.letter ∈ letters := by
      have hmapped : t.letter ∈ scan.substitutions.map (·.letter) := List.mem_map.2 ⟨t, hmem, rfl⟩
      rw [Pattern.scan_letters] at hmapped
      exact List.mem_of_mem_take hmapped
    have hitemText : item.text = before ++ t.replacement.text ++ after := by
      simp only [item, hitem]
      exact hslice
    refine ⟨t.letter, hletter, format, v, t.position, t.replacement.text.length, hformat, ?_, ?_,
      ?_, by omega, ?_, ?_⟩
    · simp only [item, hitem]
      exact hvalue
    · simp only [item, hitem]
      exact hposition
    · simp only [item, hitem]
      exact hlength
    · rw [hitemText, hbefore, List.length_append, List.length_append]
      omega
    · rw [hitemText, hbefore, Nat.zero_add, ← hwritten, Int.toNat_natCast, Int.toNat_natCast,
        List.append_assoc, List.drop_left, List.take_left]

/-- The text of an instruction is finished: it is not empty, none of its marks is left over for
being one too many, and nothing of a pattern's notation is in it. The token lies in the text, and
there stands the number of the symbol in the format of one of the letters. -/
theorem decode_finished :
    let letters := marks (q.instructionSet.select s c.begin).pattern.text
    let item := (q.instructionSet.decode s c).item
    item.text ≠ [] ∧ .char '^' ∉ item.text ∧ .char '|' ∉ item.text ∧ letters.length ≤ maxMarks ∧
      (item.hasSymbol = true → ∃ letter ∈ letters, ∃ format v position length,
        q.format letter = some format ∧ item.symbolValue = some v ∧
          item.tokenPosition = some position ∧ item.tokenLength = some length ∧
          0 ≤ position ∧ position + length ≤ item.text.length ∧
          (item.text.drop position.toNat).take length.toNat = s.options.formatted format v) := by
  intro letters item
  obtain ⟨first, rest, htext, -⟩ :=
    q.leads.decode_legible (q.sound.describes s).caretFree c
  obtain ⟨hcaret, hbar⟩ := q.decode_clean s c
  have hne : item.text ≠ [] := by
    intro hempty
    rw [hempty] at htext
    cases htext
  exact ⟨hne, hcaret, hbar, q.marks_length s c, q.decode_token_formatted s c⟩

/-- Four marks are the most that a pattern has. -/
example : (Z80.instructionSet.decode
    { image := { bytes := #[0xDD, 0xCB, 0x05, 0xD8] } } { offset := 0 }).item.text =
      Text.ofString "set 3,(ix+$05),b" := by decide +kernel

end Processor

end RomListing

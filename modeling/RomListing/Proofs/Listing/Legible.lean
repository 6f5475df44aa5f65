import RomListing.Proofs.Listing.Reading
import RomListing.Proofs.Machine.Items
import RomListing.Proofs.Machine.Rows
import RomListing.Proofs.Pass.Everywhere

/-! # All items have legible texts

The patterns of instructions, the directives of data lines and the texts of the machines' own items
all start with a letter that no digit of a byte can be mistaken for, and replacing marks does not
touch it.
-/

namespace RomListing

open Numeral (isHexDigit)

/-! ## Instructions -/

namespace Pattern

/-- The letters that texts of items start with. -/
def isLead (c : Char) : Bool := c.isLower || c == '.' || c == '?'

/-- They are neither blanks nor digits, and no marks of a pattern. -/
theorem isLead_apart {c : Char} (h : isLead c = true) : Text.isBlank c = false ∧
    isHexDigit c = false ∧ c ≠ '^' ∧ c ≠ '|' := by
  unfold isLead at h
  rw [Bool.or_eq_true, Bool.or_eq_true, beq_iff_eq, beq_iff_eq] at h
  rcases h with (h | rfl) | rfl
  · have hbounds : 97 ≤ c.toNat ∧ c.toNat ≤ 122 := by
      obtain ⟨hlow, hhigh⟩ := Bool.and_eq_true_iff.1 h
      exact ⟨of_decide_eq_true hlow, of_decide_eq_true hhigh⟩
    have hne (d : Char) (hd : d.toNat < 97 ∨ 122 < d.toNat) : c ≠ d := by
      rintro rfl
      omega
    refine ⟨?_, ?_, hne _ (by decide), hne _ (by decide)⟩
    · have hcodes : ∀ n ∈ Text.blankCodes, n < 97 ∨ 122 < n := by decide
      unfold Text.isBlank
      rw [List.contains_eq_mem, decide_eq_false_iff_not]
      intro hmem
      have := hcodes _ hmem
      omega
    · have hdigits : ∀ d ∈ "0123456789ABCDEF".toList, d.toNat < 97 ∨ 122 < d.toNat := by simp
      unfold isHexDigit
      rw [List.contains_eq_mem, decide_eq_false_iff_not]
      exact fun hmem => hne c (hdigits c hmem) rfl
  · decide
  · decide

def leads (text : String) : Bool := isLead text.front

theorem leads_iff {text : String} :
    leads text = true ↔ ∃ c rest, text.toList = c :: rest ∧ isLead c = true := by
  have hempty : isLead 'A' = false := by decide
  unfold leads
  rw [String.front_eq, String.front?_eq]
  cases text.toList <;> simp [hempty]

theorem leads_append {text : String} (h : leads text = true) (more : String) :
    leads (text ++ more) = true := by
  obtain ⟨c, rest, htext, hc⟩ := leads_iff.1 h
  exact leads_iff.2 ⟨c, rest ++ more.toList, by simp [htext], hc⟩

theorem legible_of_leads {text : String} (h : leads text = true) :
    (Text.ofString text).Legible := by
  obtain ⟨c, rest, htext, hlead⟩ := leads_iff.1 h
  obtain ⟨hblank, hdigit, -⟩ := isLead_apart hlead
  refine ⟨c, Text.ofChars rest, ?_, hblank, hdigit⟩
  unfold Text.ofString
  rw [htext]
  rfl

theorem legible_append {lead : String} (h : leads lead = true) (more : String) :
    (Text.ofString (lead ++ more)).Legible := legible_of_leads (leads_append h more)

end Pattern

open Pattern (leads)

/-- What a pattern, an undefined opcode and a data line start with. -/
structure InstructionSet.Leads (cpu : InstructionSet) : Prop where
  patterns : ∀ s c text, (cpu.select s c).text = some text → leads text = true
  undefined : leads cpu.undefinedText = true
  bytes : leads cpu.byteDirective = true
  words : leads cpu.wordDirective = true
  gaps : leads cpu.skipDirective = true

namespace Z80

theorem leads_plainPatterns : ∀ e ∈ plainPatterns, leads e.2 = true := by decide +kernel

theorem leads_indexedPatterns : ∀ e ∈ indexedPatterns, leads e.2 = true := by decide +kernel

theorem leads_extendedPatterns : ∀ e ∈ extendedPatterns, leads e.2 = true := by decide +kernel

theorem leads_bitOperands : ∀ operand ∈ bitOperands, ∀ lead ∈ bitLeads,
    leads (lead ++ operand) = true := by
  have hleads : ∀ lead ∈ bitLeads, leads lead = true := by decide
  exact fun operand _ lead hlead => Pattern.leads_append (hleads lead hlead) operand

theorem leads : instructionSet.Leads where
  patterns _ _ _ h := forall_selected (P := (Pattern.leads · = true)) leads_plainPatterns
    leads_indexedPatterns leads_extendedPatterns (by decide) leads_bitOperands h
  undefined := by decide
  bytes := by decide
  words := by decide
  gaps := by decide

end Z80

namespace Mos6502

theorem leads_patterns : ∀ e ∈ patterns, leads e.2 = true := by decide +kernel

theorem leads : instructionSet.Leads where
  patterns _ _ _ h := forall_lookup (P := (Pattern.leads · = true)) leads_patterns h
  undefined := by decide
  bytes := by decide
  words := by decide
  gaps := by decide

end Mos6502

theorem Processor.leads (q : Processor) : q.instructionSet.Leads := by
  cases q with
  | z80 => exact Z80.leads
  | mos6502 => exact Mos6502.leads

/-- The text of a pattern that was selected starts as the pattern does. -/
theorem Selection.exists_lead {x : Selection} (h : ∀ text, x.text = some text → leads text = true)
    (hsome : ¬x.pattern.text.isEmpty) :
    ∃ c rest, x.pattern.text = .char c :: rest ∧ Pattern.isLead c = true := by
  unfold Selection.pattern at *
  split at hsome
  · rename_i p hp
    obtain ⟨t, ht, hparse⟩ := Option.map_eq_some_iff.1 hp
    obtain ⟨text, hx, ht⟩ := Option.bind_eq_some_iff.1 ht
    cases ht
    obtain ⟨c, rest, htext, hlead⟩ := Pattern.leads_iff.1 (h text hx)
    obtain ⟨-, -, -, hbar⟩ := Pattern.isLead_apart hlead
    have hne : ¬Letter.char c = .char '|' := fun hsame => hbar (Letter.char.inj hsame)
    rw [parse_text hparse]
    unfold Text.ofString Text.ofChars
    rw [htext, List.map_cons, Pattern.cut, if_neg hne]
    exact ⟨c, _, rfl, hlead⟩
  · exact absurd rfl hsome

variable {cpu : InstructionSet} {s : Setting}

/-- Replacing marks leaves the start of a text as it is. -/
theorem InstructionSet.Leads.decode_legible (h : cpu.Leads) (he : (cpu.expand s).CaretFree)
    (c : Cursor) : (cpu.decode s c).item.text.Legible := by
  rw [cpu.decode_eq]
  show (cpu.expansion s c).item.text.Legible
  unfold expansion
  dsimp only
  split
  · rename_i hempty
    show (if _ then _ else _ : Text).Legible
    rw [if_pos hempty]
    exact Pattern.legible_of_leads h.undefined
  · rename_i hsome
    obtain ⟨letter, rest, htext, hlead⟩ := Selection.exists_lead (h.patterns s c.begin) hsome
    obtain ⟨hblank, hdigit, hcaret, -⟩ := Pattern.isLead_apart hlead
    have hdraft : (cpu.draft s c).text = [.char letter] ++ rest := (cpu.draft_text hsome).trans htext
    have hdone : Letter.char '^' ∉ [Letter.char letter] := by simpa using hcaret.symm
    obtain ⟨tail, htail⟩ := (Pattern.expandFrom_token he Pattern.maxMarks
      (cpu.select s c.begin).cursor hdone hdraft).1
    exact ⟨letter, tail, htail, hblank, hdigit⟩

/-! ## Data lines -/

section

variable (h : cpu.Leads)
include h

theorem InstructionSet.Leads.byteLine_legible (place : Int) (count : Nat) :
    (cpu.byteLine s place count).text.Legible :=
  Pattern.legible_append (Pattern.leads_append h.bytes _) _

theorem InstructionSet.Leads.byteLines_legible (r : Region) :
    ∀ item ∈ cpu.byteLines s r, item.text.Legible :=
  List.forall_mem_map.2 fun _ _ => h.byteLine_legible _ _

theorem InstructionSet.Leads.lines_legible {r : Region} (hk : r.kind ≠ .code) :
    ∀ item ∈ cpu.lines s r, item.text.Legible := by
  have hword (place : Int) (count : Nat) : (cpu.wordLine s place count).text.Legible :=
    Pattern.legible_append (Pattern.leads_append h.words _) _
  unfold InstructionSet.lines
  split
  · contradiction
  · exact h.byteLines_legible r
  · exact h.byteLines_legible r
  · unfold InstructionSet.wordLines
    dsimp only
    split
    · exact List.forall_mem_append.2 ⟨List.forall_mem_map.2 fun _ _ => hword _ _,
        List.forall_mem_singleton.2 (h.byteLine_legible _ _)⟩
    · exact List.forall_mem_map.2 fun _ _ => hword _ _
  · exact List.forall_mem_singleton.2
      (Pattern.legible_append (Pattern.leads_append h.gaps _) _)

end

/-! ## Machines -/

theorem Z88.IsCall.legible {c : Cursor} {item : Item} (h : IsCall s c item) :
    item.text.Legible := by
  have hleads : ∀ lead ∈ callLeads, leads lead = true := by decide
  obtain ⟨opcodes, lead, hlead, more, continuation, rfl⟩ := h
  exact Pattern.legible_append (hleads lead hlead) more

theorem Spectrum.IsPayload.legible {place : Int} {item : Item} (h : IsPayload s place item) :
    item.text.Legible := by
  have hleads : ∀ lead ∈ payloadLeads, leads lead = true := by decide
  obtain ⟨lead, hlead, more, htext⟩ := h.text
  obtain ⟨c, rest, hstart, hc⟩ := Pattern.legible_of_leads (hleads lead hlead)
  exact ⟨c, rest ++ more, by rw [htext, hstart, List.cons_append], hc⟩

/-- Whatever the machine, all that a job lists has a legible text. -/
theorem Machine.everywhere_legible (machine : Option Machine) (q : Processor) {job : Job}
    (hcpu : job.cpu = q.instructionSet) :
    job.Everywhere (extension machine) (·.text.Legible) fun _ => True where
  plain h := h
  instruction c _ := by
    rw [hcpu]
    exact q.leads.decode_legible (q.sound.describes job.setting).caretFree c
  references _ _ _ := trivial
  data hk := by
    rw [hcpu]
    exact q.leads.lines_legible hk
  before c st := .of_items <| by
    match machine with
    | none => exact List.forall_mem_nil _
    | some .z88 => exact fun item hi => (Z88.isCall_before st item hi).legible
    | some (.spectrum _) => exact fun item hi => (Spectrum.isPayload_before c st item hi).legible
  custom r c _ := .of_items <| by
    match machine with
    | none | some .z88 => exact List.forall_mem_nil _
    | some (.spectrum _) =>
        intro item hi
        obtain ⟨place, -, -, hitem⟩ := Spectrum.isPayload_entries r.last r.length 0 c item hi
        exact hitem.legible

end RomListing

import RomListing.Proofs.Processor

/-! # Relative branches

The distance of a relative branch counts from behind its two bytes, whether or not an index prefix
stands before them. So the target is as far behind the next instruction as the distance says
exactly if there is no prefix. Behind a prefix it falls one address short.
-/

namespace RomListing

theorem Operand.relative_named (s : Setting) (c : Cursor) :
    (relative s c).1.named =
      some (wrap (s.shownAddress c.opStart + 2 + signedByte (c.fetch s).1.toNat)) := by
  rw [relative_eq, label_named]

/-- An instruction whose pattern has a letter for a relative label has no other letter. Its one
use of a label is that of the target. -/
theorem InstructionSet.Sound.decode_relative {cpu : InstructionSet} {a : Alphabet} {longest : Nat}
    (h : cpu.Sound a longest) {s : Setting} {c : Cursor} {letter : Letter}
    (hlabel : a.isLabel letter = true)
    (hrelative : ∀ c, cpu.expand s letter c = Operand.relative s c)
    (hmem : letter ∈ Pattern.marks (cpu.select s c.begin).pattern.text) :
    let read := (cpu.select s c.begin).cursor.fetch s
    let d := cpu.decode s c
    let target := wrap (d.item.address + 2 + signedByte read.1.toNat)
    d.cursor = read.2 ∧ d.item.hasLabelSymbol = true ∧ d.item.symbolValue = some target ∧
      d.references = [⟨target, d.item.address⟩] := by
  intro read d target
  obtain ⟨n, -, -, hreads, hfits⟩ := h.selects s c.begin
  have hone : Pattern.marks (cpu.select s c.begin).pattern.text = [letter] := by
    rcases (Alphabet.allows_iff.1 hfits.allows).2.2 with hnone | ⟨l, hl⟩
    · simp [hnone letter hmem] at hlabel
    · rw [hl, List.mem_singleton] at hmem
      rw [hl, hmem]
  obtain ⟨x, hx, hd⟩ : ∃ x : Expansion, Pattern.Follows (cpu.expand s) [letter]
      (cpu.draft s c) (cpu.select s c.begin).cursor x ∧
      d = ⟨{ x.item with opcodes := x.cursor.taken.toList }, x.references, x.cursor⟩ :=
    hone ▸ h.decode_follows s c
  let r := (Operand.relative s (cpu.select s c.begin).cursor).1
  have hreplaced : (cpu.expand s).replacements [letter] (cpu.select s c.begin).cursor =
      ([r], read.2) := by
    simp only [Expander.replacements, hrelative]
    rfl
  have hnoted : x.item = ((cpu.draft s c).note r).reword x.item.text x.item.tokenPosition
      x.item.tokenLength := by
    have hitem := hx.item
    rwa [hreplaced] at hitem
  have htarget : r.named = some target := by
    have hstart : (cpu.select s c.begin).cursor.opStart = c.offset := hreads.opStart
    have haddress : d.item.address = s.shownAddress c.offset := (h.decode_frame s c).1
    have hnamed := Operand.relative_named s (cpu.select s c.begin).cursor
    rwa [hstart, ← haddress] at hnamed
  have hsymbol : d.item.hasLabelSymbol = true ∧ d.item.symbolValue = some target := by
    have hlabelled : r.isLabel = true := rfl
    rw [hd]
    show x.item.hasLabelSymbol = true ∧ x.item.symbolValue = some target
    rw [hnoted]
    simp [Item.reword, Item.note, htarget, hlabelled]
  refine ⟨?_, hsymbol.1, hsymbol.2, ?_⟩
  · rw [hd]
    exact hx.cursor.trans (congrArg Prod.snd hreplaced)
  · have huses : d.references = d.item.uses := (h.decode_references s c).1
    simp [huses, Item.uses, hsymbol]

/-! ## The opcodes of branches -/

namespace Z80

/-- `djnz` and `jr`. -/
def branches : List UInt8 := [0x10, 0x18, 0x20, 0x28, 0x30, 0x38]

/-- The letter of a relative label is in the text. -/
def IsBranch (text : String) : Prop := .char 'r' ∈ Pattern.letters text

instance (text : String) : Decidable (IsBranch text) := inferInstanceAs (Decidable (_ ∈ _))

theorem branch_plainPatterns : ∀ e ∈ plainPatterns, IsBranch e.2 →
    e.1 ∈ branches.map UInt8.toNat ∧ usesDisplacement e.2.toList = false := by
  decide +kernel

theorem not_branch_indexedPatterns : ∀ e ∈ indexedPatterns, ¬IsBranch e.2 := by decide +kernel

theorem not_branch_extendedPatterns : ∀ e ∈ extendedPatterns, ¬IsBranch e.2 := by decide +kernel

theorem not_branch_bitOperands : ∀ operand ∈ bitOperands, ∀ lead ∈ bitLeads,
    ¬IsBranch (lead ++ operand) := by
  decide +kernel

theorem branch_lookup {code : UInt8} {text : String}
    (h : plainPatterns.lookup code.toNat = some text) (hbranch : IsBranch text) :
    code ∈ branches ∧ usesDisplacement text.toList = false := by
  obtain ⟨hcode, hplain⟩ := branch_plainPatterns (code.toNat, text) (mem_of_lookup h) hbranch
  obtain ⟨code', hmem, hsame⟩ := List.mem_map.1 hcode
  rw [UInt8.toNat_inj.1 hsame] at hmem
  exact ⟨hmem, hplain⟩

theorem not_branch_extendedPattern (allowNext : Bool) (code : UInt8) :
    ¬IsBranch (extendedPattern allowNext code) :=
  forall_extendedPattern (P := (¬IsBranch ·)) not_branch_extendedPatterns (by decide) allowNext code

theorem not_branch_bitPattern (code : UInt8) {operand : String} (h : operand ∈ bitOperands) :
    ¬IsBranch (bitPattern code operand) :=
  forall_bitPattern (P := (¬IsBranch ·)) (not_branch_bitOperands operand h) code

theorem not_branch_indexedBitPattern (code : UInt8) : ¬IsBranch (indexedBitPattern code) :=
  forall_indexedBitPattern (P := (¬IsBranch ·)) (not_branch_bitOperands _ (by decide))
    (not_branch_bitOperands _ (by decide)) code

theorem branch_indexedPattern {code : UInt8} {text : String} (h : indexedPattern code = some text)
    (hbranch : IsBranch text) : code ∈ branches ∧ usesDisplacement text.toList = false := by
  unfold indexedPattern at h
  cases hl : indexedPatterns.lookup code.toNat with
  | none =>
      rw [hl] at h
      exact branch_lookup h hbranch
  | some t =>
      rw [hl] at h
      cases h
      exact absurd hbranch (not_branch_indexedPatterns (code.toNat, text) (mem_of_lookup hl))

variable {s : Setting} {c : Cursor} {text : String}

/-- Behind an index prefix a branch is selected by its opcode alone, and no displacement is read
for it. -/
theorem selectIndexed_branch (hbranch : IsBranch text)
    (htext : (selectIndexed s c).text = some text)
    (hover : (selectIndexed s c).cursor.overflow = false) : c.overflow = false ∧
      ∃ code ∈ branches, (selectIndexed s c).cursor.taken.toList = c.taken.toList ++ [code] := by
  revert htext hover
  unfold selectIndexed fetchOpcode
  dsimp only
  split
  · intro htext
    cases htext
    exact absurd hbranch (not_branch_indexedBitPattern _)
  · split
    · nofun
    · rename_i hpattern
      intro htext
      cases htext
      obtain ⟨hcode, hplain⟩ := branch_indexedPattern hpattern hbranch
      rw [if_neg (by simp [hplain])]
      intro hover
      obtain ⟨hbefore, htaken⟩ := Cursor.fetch_taken hover
      exact ⟨hbefore, _, hcode, htaken⟩

theorem select_branch (hbranch : IsBranch text) (htext : (select s c).text = some text)
    (hover : (select s c).cursor.overflow = false) :
    ∃ lead ∈ [[], [0xDD], [0xFD]], ∃ code ∈ branches,
      (select s c).cursor.taken.toList = c.taken.toList ++ lead ++ [code] := by
  have indexed {index : IndexRegister}
      (htext : (selectIndexed s { (fetchOpcode s c).2 with index := index }).text = some text)
      (hover : (selectIndexed s { (fetchOpcode s c).2 with index := index }).cursor.overflow =
        false) :
      ∃ code ∈ branches,
        (selectIndexed s { (fetchOpcode s c).2 with index := index }).cursor.taken.toList =
          c.taken.toList ++ [(fetchOpcode s c).1] ++ [code] := by
    obtain ⟨hbefore, code, hcode, htaken⟩ := selectIndexed_branch hbranch htext hover
    have hlead : (fetchOpcode s c).2.taken.toList = c.taken.toList ++ [(fetchOpcode s c).1] :=
      (Cursor.fetch_taken hbefore).2
    exact ⟨code, hcode, htaken.trans (congrArg (· ++ [code]) hlead)⟩
  revert htext hover
  unfold select
  dsimp only
  split
  · intro htext
    cases htext
    exact absurd hbranch (not_branch_extendedPattern _ _)
  split
  · intro htext
    cases htext
    exact absurd hbranch (not_branch_bitPattern _ (by simp [bitOperands]))
  split
  · rename_i hprefix
    intro htext hover
    obtain ⟨code, hcode, htaken⟩ := indexed htext hover
    exact ⟨[0xDD], by simp, code, hcode, hprefix ▸ htaken⟩
  split
  · rename_i hprefix
    intro htext hover
    obtain ⟨code, hcode, htaken⟩ := indexed htext hover
    exact ⟨[0xFD], by simp, code, hcode, hprefix ▸ htaken⟩
  · intro htext hover
    have htaken := (Cursor.fetch_taken hover).2
    refine ⟨[], by simp, _, (branch_lookup htext hbranch).1, ?_⟩
    rw [List.append_nil]
    exact htaken

end Z80

namespace Mos6502

def branches : List UInt8 := [0x10, 0x30, 0x50, 0x70, 0x90, 0xB0, 0xD0, 0xF0]

theorem branch_patterns : ∀ e ∈ patterns, .char 'R' ∈ Pattern.letters e.2 →
    e.1 ∈ branches.map UInt8.toNat := by
  decide +kernel

theorem select_branch {s : Setting} {c : Cursor} {text : String}
    (hbranch : .char 'R' ∈ Pattern.letters text) (htext : (select s c).text = some text)
    (hover : (select s c).cursor.overflow = false) :
    ∃ code ∈ branches, (select s c).cursor.taken.toList = c.taken.toList ++ [code] := by
  have hcode := branch_patterns _ (mem_of_lookup htext) hbranch
  obtain ⟨code, hmem, hsame⟩ := List.mem_map.1 hcode
  rw [UInt8.toNat_inj.1 hsame] at hmem
  exact ⟨_, hmem, (Cursor.fetch_taken hover).2⟩

end Mos6502

namespace Processor

def relative : Processor → Letter
  | z80 => .char 'r'
  | mos6502 => .char 'R'

def branches : Processor → List UInt8
  | z80 => Z80.branches
  | mos6502 => Mos6502.branches

/-- What may stand before the opcode of a relative branch. -/
def prefixes : Processor → List (List UInt8)
  | z80 => [[], [0xDD], [0xFD]]
  | mos6502 => [[]]

theorem prefixes_length (q : Processor) : ∀ lead ∈ q.prefixes, lead.length ≤ 1 := by
  cases q <;> decide

theorem relative_isLabel (q : Processor) : q.alphabet.isLabel q.relative = true := by
  cases q <;> rfl

theorem expand_relative (q : Processor) (s : Setting) (c : Cursor) :
    q.instructionSet.expand s q.relative c = Operand.relative s c := by
  cases q <;> rfl

theorem select_branch (q : Processor) {s : Setting} {c : Cursor}
    (hmem : q.relative ∈ Pattern.marks (q.instructionSet.select s c).pattern.text)
    (hover : (q.instructionSet.select s c).cursor.overflow = false) :
    ∃ lead ∈ q.prefixes, ∃ code ∈ q.branches,
      (q.instructionSet.select s c).cursor.taken.toList = c.taken.toList ++ lead ++ [code] := by
  rcases (q.instructionSet.select s c).marks_pattern with hnone | ⟨text, htext, hmarks⟩
  · simp [hnone] at hmem
  · rw [hmarks] at hmem
    cases q with
    | z80 => exact Z80.select_branch hmem htext hover
    | mos6502 =>
        obtain ⟨code, hcode, htaken⟩ := Mos6502.select_branch hmem htext hover
        refine ⟨[], by simp [prefixes], code, hcode, ?_⟩
        rw [List.append_nil]
        exact htaken

/-- A relative branch, at any place and none of whose bytes is missing, is an opcode of its
processor with a distance behind it, and before it perhaps an index prefix. It refers, from its
own address, to the address two bytes behind it plus the distance, and shows no other symbol. So
the distance counts from the next instruction exactly if there is no prefix. -/
theorem decode_branch_target (q : Processor) (s : Setting) (c : Cursor)
    (hmem : q.relative ∈ Pattern.marks (q.instructionSet.select s c.begin).pattern.text)
    (hover : (q.instructionSet.decode s c).cursor.overflow = false) :
    let d := q.instructionSet.decode s c
    ∃ lead ∈ q.prefixes, ∃ code ∈ q.branches, ∃ distance,
      d.item.opcodes = lead ++ [code, distance] ∧
      let target := wrap (d.item.address + 2 + signedByte distance.toNat)
      d.item.hasLabelSymbol = true ∧ d.item.symbolValue = some target ∧
      d.references = [⟨target, d.item.address⟩] ∧
      (target = wrap (d.item.address + d.item.opcodes.length + signedByte distance.toNat) ↔
        lead = []) := by
  intro d
  obtain ⟨hcursor, hlabel, hsymbol, hreferences⟩ :=
    q.sound.decode_relative q.relative_isLabel (q.expand_relative s) hmem
  rw [hcursor] at hover
  obtain ⟨hbefore, hread⟩ := Cursor.fetch_taken hover
  obtain ⟨lead, hlead, code, hcode, htaken⟩ := q.select_branch hmem hbefore
  have hopcodes : d.item.opcodes = lead ++
      [code, ((q.instructionSet.select s c.begin).cursor.fetch s).1] := by
    show d.cursor.taken.toList = _
    rw [hcursor, hread, htaken]
    simp [Cursor.begin]
  refine ⟨lead, hlead, code, hcode, _, hopcodes, hlabel, hsymbol, hreferences, ?_⟩
  have hlength : d.item.opcodes.length = lead.length + 2 := by simp [hopcodes]
  have hshort := q.prefixes_length lead hlead
  rw [hlength, ← List.length_eq_zero_iff]
  unfold wrap
  omega

theorem decode_branch_target_backward :
    let s : Setting := { image := { bytes := #[0xEA, 0xD0, 0xFD] }, addressOffset := 0x8000 }
    let d := mos6502.instructionSet.decode s { offset := 1 }
    d.item.opcodes = [0xD0, 0xFD] ∧ d.item.symbolValue = some 0x8000 ∧
      d.references = [⟨0x8000, 0x8001⟩] := by
  intro s d
  have hopcodes : d.item.opcodes = [0xD0, 0xFD] := by decide +kernel
  have haddress : d.item.address = 0x8001 := by decide +kernel
  obtain ⟨lead, hlead, code, -, distance, hbytes, -, hsymbol, hreferences, -⟩ :=
    decode_branch_target mos6502 s { offset := 1 } (by decide +kernel) (by decide +kernel)
  obtain rfl : lead = [] := by simpa [prefixes] using hlead
  obtain ⟨-, rfl⟩ : code = 0xD0 ∧ distance = 0xFD := by
    simpa [d, eq_comm] using hbytes.symm.trans hopcodes
  have htarget : wrap (d.item.address + 2 + signedByte (0xFD : UInt8).toNat) = 0x8000 := by
    rw [haddress]
    decide +kernel
  rw [htarget] at hsymbol hreferences
  rw [haddress] at hreferences
  exact ⟨hopcodes, hsymbol, hreferences⟩

/-- The distance 5 of a `jr` behind an index prefix leads to 7, though the next instruction is
at 3. -/
theorem decode_branch_target_behind_index :
    let s : Setting := { image := { bytes := #[0xDD, 0x18, 0x05] } }
    let d := z80.instructionSet.decode s { offset := 0 }
    z80.relative ∈
        Pattern.marks (z80.instructionSet.select s (Cursor.begin { offset := 0 })).pattern.text ∧
      d.cursor.overflow = false ∧ d.item.opcodes = [0xDD, 0x18, 0x05] ∧
      d.item.symbolValue = some 7 ∧ d.references = [⟨7, 0⟩] ∧
      wrap (d.item.address + d.item.opcodes.length + signedByte (0x05 : UInt8).toNat) = 8 := by
  decide +kernel

end Processor

end RomListing

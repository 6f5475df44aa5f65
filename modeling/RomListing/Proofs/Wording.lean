import RomListing.Proofs.Pattern.Telling
import RomListing.Proofs.Tokens

/-! # The words of instructions

A wording tells which bytes select an instruction and which are its operands, and which letters of
a pattern write operands. What it promises of selections and of letters carries over to whole
texts: instructions with the same selector, address and text have the same operands.
-/

namespace RomListing

open Cursor (Kin TakeAlike)

/-! ## Wordings -/

structure Wording where
  /-- The bytes that select an instruction, and its operands. -/
  parts : List UInt8 → List UInt8 × List UInt8
  /-- The text with the pattern that these bytes select. -/
  text : Options → List UInt8 → Option String
  index : List UInt8 → IndexRegister
  /-- The letters that write operands. -/
  varies : Letter → Bool
  /-- The letters among them that write a displacement. -/
  shows : Letter → Bool
  /-- The characters that close what is written for an operand. -/
  closes : Letter → Bool

/-- How a selection is spelled: behind its bytes operands may follow, and can be told from them
and from a displacement among them. All that was selected follows from the selector, and a letter
of the text shows the displacement if there is one. -/
structure Selection.Spelled (w : Wording) (o : Options) (x : Selection) (selector : List UInt8)
    (displacement : Option UInt8) : Prop where
  parts : ∀ operands, w.parts (x.cursor.taken.toList ++ operands) =
    (selector, displacement.toList ++ operands)
  text : x.text = w.text o selector
  opcode : x.cursor.opcode = (selector.getLastD 0).toNat
  index : x.cursor.index = w.index selector
  held : x.cursor.displacement = displacement.map fun b => (b.toNat : Int)
  shown : displacement.isSome = x.text.any fun text => (Pattern.letters text).any w.shows

namespace Selection.Spelled

variable {w : Wording} {o o' : Options} {x x' : Selection} {selector : List UInt8}
  {displacement displacement' : Option UInt8}

theorem isSome_eq (hx : x.Spelled w o selector displacement)
    (hx' : x'.Spelled w o' selector displacement') (htext : x'.text = x.text) :
    displacement'.isSome = displacement.isSome := by
  rw [hx'.shown, hx.shown, htext]

/-- Two complete selections with the same selector chose the same text, and go on from cursors
that differ in a displacement at most. -/
theorem kin {s s' : Setting} (hx : x.Spelled w s.options selector displacement)
    (hx' : x'.Spelled w s'.options selector displacement') (hoptions : s'.options = s.options)
    (hstart : s'.shownAddress x'.cursor.opStart = s.shownAddress x.cursor.opStart) :
    x'.text = x.text ∧ Kin s s' x.cursor x'.cursor := by
  have htext : x'.text = x.text := by rw [hx'.text, hx.text, hoptions]
  have hsome := hx.isSome_eq hx' htext
  refine ⟨htext, hoptions, hstart, hx'.opcode.trans hx.opcode.symm,
    hx'.index.trans hx.index.symm, ?_⟩
  rw [hx.held, hx'.held]
  cases displacement with
  | none =>
      obtain rfl := Option.isNone_iff_eq_none.1 (Option.isSome_eq_false_iff.1 hsome)
      exact .inl ⟨rfl, rfl⟩
  | some b =>
      obtain ⟨b', rfl⟩ := Option.isSome_iff_exists.1 hsome
      exact .inr ⟨b, b', rfl, rfl⟩

/-- Displacements are the same if those that a letter of the pattern shows are. -/
theorem displacement_eq {a : Alphabet} {room : Nat} (hx : x.Spelled w o selector displacement)
    (hx' : x'.Spelled w o' selector displacement') (hfits : x.Fits a room)
    (htext : x'.text = x.text) (h : (Pattern.marks x.pattern.text).any w.shows = true →
      x.cursor.displacement = x'.cursor.displacement) : displacement' = displacement := by
  have hsome := hx.isSome_eq hx' htext
  cases hd : displacement with
  | none =>
      rw [hd] at hsome
      exact Option.isNone_iff_eq_none.1 (Option.isSome_eq_false_iff.1 hsome)
  | some b =>
      have hshown : (Pattern.marks x.pattern.text).any w.shows = displacement.isSome := by
        rw [hx.shown, hfits.pattern_text]
        cases x.text <;> rfl
      have hheld := h (hshown.trans (by rw [hd]; rfl))
      rw [hx.held, hx'.held, hd] at hheld
      have hbyte (b b' : UInt8) (hb : (b.toNat : Int) = b'.toNat) : b = b' :=
        UInt8.toNat_inj.1 (Int.ofNat_inj.1 hb)
      exact (Option.map_injective hbyte hheld).symm

end Selection.Spelled

/-- What a wording promises: operands can be told from what their letters write, letter by letter
in every pattern. -/
structure InstructionSet.Words (cpu : InstructionSet) (w : Wording) : Prop where
  caret : w.closes (.char '^') = false
  expand : ∀ {s s' : Setting} {c c' : Cursor}, Kin s s' c c' → ∀ letter,
    Alphabet.Tells (w.varies letter) (w.shows letter) w.closes s s' c c' (cpu.expand s letter c)
      (cpu.expand s' letter c')
  separated : ∀ s c text, (cpu.select s c).text = some text →
    Pattern.separated w.varies w.closes (Pattern.cut '|' (Text.ofString text)).1 = true
  select : ∀ s (c : Cursor), (cpu.select s c.begin).cursor.overflow = false →
    ∃ selector displacement,
      (cpu.select s c.begin).Spelled w s.options selector displacement

/-! ## Instructions -/

/-- Where no byte is missing, the same words stand for the same bytes. -/
theorem Alphabet.Describes.replacements_tell {a : Alphabet} {w : Wording} {s s' : Setting}
    {e e' : Expander} (ha : a.Describes s e) (ha' : a.Describes s' e')
    (he : ∀ {c c' : Cursor}, Kin s s' c c' → ∀ letter,
      Tells (w.varies letter) (w.shows letter) w.closes s s' c c' (e letter c) (e' letter c'))
    (letters : List Letter) {c c' : Cursor} (h : Kin s s' c c') :
    let x := e.replacements letters c
    let x' := e'.replacements letters c'
    Pattern.Rivals w.varies w.closes letters (x.1.map (·.text)) (x'.1.map (·.text)) ∧
      (x.2.overflow = false → x'.2.overflow = false →
        x.1.map (·.text) = x'.1.map (·.text) → TakeAlike c x.2 c' x'.2 ∧
          (letters.any w.shows = true → c.displacement = c'.displacement)) := by
  induction letters generalizing c c' with
  | nil => exact ⟨.nil, fun _ _ _ => ⟨.refl c c', nofun⟩⟩
  | cons letter letters ih =>
      have hfirst := he h letter
      obtain ⟨hrivals, hrest⟩ := ih hfirst.kin
      refine ⟨?_, fun ho ho' htexts => ?_⟩
      · cases hvaries : w.varies letter with
        | false =>
            have hsame := hfirst.same hvaries
            simp only [Expander.replacements, List.map_cons, hsame]
            exact .fixed hrivals
        | true =>
            obtain ⟨hleft, hright⟩ := hfirst.unclosed hvaries
            exact .varying hvaries hleft hright hrivals
      · obtain ⟨htext, htexts⟩ := List.cons_eq_cons.1 htexts
        obtain ⟨hmore, hshown⟩ := hrest ho ho' htexts
        have hbefore := (ha.replacements_reads letters _).complete ho
        have hbefore' := (ha'.replacements_reads letters _).complete ho'
        obtain ⟨htake, hshows⟩ := hfirst.tells hbefore hbefore' htext
        refine ⟨htake.trans hmore, fun hany => ?_⟩
        rcases Bool.or_eq_true_iff.1 hany with hletter | hletters
        · exact hshows hletter
        · rw [← hfirst.kept.1, ← hfirst.kept.2]
          exact hshown hletters

namespace InstructionSet

variable {cpu : InstructionSet} {a : Alphabet} {longest : Nat}

/-- The text of an instruction is its pattern with the replacements where the marks were. -/
theorem Sound.decode_text (h : cpu.Sound a longest) (s : Setting) (c : Cursor) :
    (cpu.decode s c).item.text =
      Pattern.weave (cpu.draft s c).text ((cpu.replacements s c).map (·.text)) := by
  rw [cpu.decode_eq]
  unfold replacements
  obtain ⟨hempty, hx⟩ | ⟨hdraft, hmarks, hx⟩ := h.expansion_cases s c
  · rw [hempty, hx]
    exact (Pattern.weave_nil _).symm
  · have hnone : Letter.char '^' ∉ ([] : Text) := by simp
    have htext := Pattern.expandFrom_text (h.describes s).caretFree Pattern.maxMarks
      (cpu.select s c.begin).cursor hnone hdraft
    rw [hmarks] at htext
    rw [hdraft, hx]
    exact htext

/-- What was replaced in the same pattern can be told from the texts. -/
theorem Words.replacements_eq_of_text {w : Wording} (hw : cpu.Words w) (h : cpu.Sound a longest)
    {s s' : Setting} {c c' : Cursor}
    (hpattern : (cpu.select s' c'.begin).pattern.text = (cpu.select s c.begin).pattern.text)
    (hrivals : Pattern.Rivals w.varies w.closes
      (Pattern.marks (cpu.select s c.begin).pattern.text)
      ((cpu.replacements s c).map (·.text)) ((cpu.replacements s' c').map (·.text)))
    (htext : (cpu.decode s c).item.text = (cpu.decode s' c').item.text) :
    (cpu.replacements s c).map (·.text) = (cpu.replacements s' c').map (·.text) := by
  obtain ⟨hempty, -⟩ | ⟨hdraft, -⟩ := h.expansion_cases s c
  · rw [hempty] at hrivals
    exact hrivals.eq_of_fixed rfl
  · have hsame : (cpu.draft s' c').text = (cpu.draft s c).text := by simp only [draft, hpattern]
    rw [h.decode_text, h.decode_text, hsame, hdraft] at htext
    obtain ⟨n, -, -, -, hfits⟩ := h.selects s c.begin
    refine Pattern.weave_inj hw.caret ?_ hrivals htext
    rw [hfits.pattern_text]
    cases hselected : (cpu.select s c.begin).text with
    | none => rfl
    | some text => exact hw.separated s c.begin text hselected

/-- The selection of an instruction of which no byte is missing, with what is read behind it. -/
theorem Words.decode_spelled {w : Wording} (hw : cpu.Words w) (h : cpu.Sound a longest)
    {s : Setting} {c : Cursor} (ho : (cpu.decode s c).cursor.overflow = false) :
    let x := cpu.select s c.begin
    let read := (cpu.expand s).replacements (Pattern.marks x.pattern.text) x.cursor
    read.2 = (cpu.decode s c).cursor ∧ x.cursor.opStart = c.offset ∧
      ∃ selector displacement, x.Spelled w s.options selector displacement ∧
        (w.parts (cpu.decode s c).item.opcodes).1 = selector := by
  intro x read
  obtain ⟨n, -, -, hselect, -⟩ := h.selects s c.begin
  have hend : read.2 = (cpu.decode s c).cursor := by
    rw [cpu.decode_eq]
    exact (h.expansion_follows s c).cursor.symm
  have hread := (h.describes s).replacements_reads (Pattern.marks x.pattern.text) x.cursor
  rw [hend] at hread
  obtain ⟨selector, displacement, hx⟩ := hw.select s c (hread.complete ho)
  refine ⟨hend, hselect.opStart, selector, displacement, hx, ?_⟩
  rw [Sound.decode_opcodes, hread.taken, hx.parts]

/-- Instructions at the same address with the same selector and the same text have the same
operands. -/
theorem Words.decode_parts {w : Wording} (hw : cpu.Words w) (h : cpu.Sound a longest)
    {s s' : Setting} {c c' : Cursor} (hoptions : s'.options = s.options)
    (haddress : s'.shownAddress c'.offset = s.shownAddress c.offset)
    (ho : (cpu.decode s c).cursor.overflow = false)
    (ho' : (cpu.decode s' c').cursor.overflow = false)
    (hselector : (w.parts (cpu.decode s c).item.opcodes).1 =
      (w.parts (cpu.decode s' c').item.opcodes).1)
    (htext : (cpu.decode s c).item.text = (cpu.decode s' c').item.text) :
    w.parts (cpu.decode s c).item.opcodes = w.parts (cpu.decode s' c').item.opcodes := by
  obtain ⟨hend, hstart, selector, displacement, hx, hparts⟩ := hw.decode_spelled h ho
  obtain ⟨hend', hstart', selector', displacement', hx', hparts'⟩ := hw.decode_spelled h ho'
  obtain rfl : selector' = selector := by rw [← hparts', ← hselector, hparts]
  obtain ⟨hsame, hkin⟩ := hx.kin hx' hoptions (by rw [hstart, hstart', haddress])
  obtain ⟨n, -, -, -, hfits⟩ := h.selects s c.begin
  obtain ⟨n', -, -, -, hfits'⟩ := h.selects s' c'.begin
  have hpattern : (cpu.select s' c'.begin).pattern.text = (cpu.select s c.begin).pattern.text := by
    rw [hfits'.pattern_text, hfits.pattern_text, hsame]
  obtain ⟨hrivals, htell⟩ := (h.describes s).replacements_tell (h.describes s') hw.expand
    (Pattern.marks (cpu.select s c.begin).pattern.text) hkin
  rw [hpattern] at hend'
  have hreplaced : (cpu.replacements s c).map (·.text) =
      (cpu.replacements s' c').map (·.text) := by
    refine hw.replacements_eq_of_text h hpattern ?_ htext
    simp only [replacements, hpattern]
    exact hrivals
  simp only [replacements, hpattern] at hreplaced
  obtain ⟨⟨bytes, htake, htake'⟩, hshown⟩ := htell (hend ▸ ho) (hend' ▸ ho') hreplaced
  have hdisplacement := hx.displacement_eq hx' hfits hsame hshown
  rw [Sound.decode_opcodes, Sound.decode_opcodes, ← hend, ← hend', htake, htake', hx.parts,
    hx'.parts, hdisplacement]

end InstructionSet

end RomListing

import RomListing.DataLines
import RomListing.Proofs.Display.Outline
import RomListing.Proofs.Processor

/-! # Instructions in other words

How numbers and labels are written decides about the text of a replacement alone. A number is never
written as nothing, so that whatever names a number with one display does so with any. What is
selected, read, noted of an item and referred to is the same.
-/

namespace RomListing

/-! ## Reading -/

section

variable (s : Setting) (decimal bareLabels : Bool)

@[simp] theorem Setting.shownAddress_display (place : Int) :
    (s.display decimal bareLabels).shownAddress place = s.shownAddress place := rfl

namespace Cursor

@[simp] theorem fetch_display (c : Cursor) :
    c.fetch (s.display decimal bareLabels) = c.fetch s := rfl

@[simp] theorem peek_display (c : Cursor) (ahead : Int) :
    c.peek (s.display decimal bareLabels) ahead = c.peek s ahead := rfl

@[simp] theorem fetchMany_display (n : Nat) (c : Cursor) :
    c.fetchMany (s.display decimal bareLabels) n = c.fetchMany s n := by
  induction n generalizing c with
  | zero => rfl
  | succ n ih => simp only [fetchMany, fetch_display, ih]

end Cursor

end

/-! ## Replacements -/

structure Replacement.Rewords (r r' : Replacement) : Prop where
  named : r'.named = r.named
  isLabel : r'.isLabel = r.isLabel
  reference : r'.reference = r.reference
  remark : r'.remark = r.remark

theorem Replacement.named_eq_none {r : Replacement} (h : r.value = none) : r.named = none := by
  unfold named
  rw [h, ite_self]

theorem Replacement.Rewords.note {r r' : Replacement} (h : r.Rewords r') (item : Item) :
    item.note r' = item.note r := by
  unfold Item.note
  rw [h.named, h.isLabel, h.remark]

theorem Replacement.Rewords.foldl_note {rs rs' : List Replacement}
    (h : List.Forall₂ Replacement.Rewords rs rs') (item : Item) :
    rs'.foldl Item.note item = rs.foldl Item.note item := by
  induction h generalizing item with
  | nil => rfl
  | cons hr _ ih => rw [List.foldl_cons, List.foldl_cons, hr.note, ih]

theorem Replacement.Rewords.references {rs rs' : List Replacement}
    (h : List.Forall₂ Replacement.Rewords rs rs') :
    rs'.flatMap (fun r => r.reference.toList) = rs.flatMap fun r => r.reference.toList := by
  induction h with
  | nil => rfl
  | cons hr _ ih => rw [List.flatMap_cons, List.flatMap_cons, hr.reference, ih]

def Expander.Rewords (e e' : Expander) : Prop :=
  ∀ letter c, (e letter c).1.Rewords (e' letter c).1 ∧ (e' letter c).2 = (e letter c).2

theorem Expander.Rewords.replacements {e e' : Expander} (h : e.Rewords e') (ls : List Letter)
    (c : Cursor) :
    List.Forall₂ Replacement.Rewords (e.replacements ls c).1 (e'.replacements ls c).1 ∧
      (e'.replacements ls c).2 = (e.replacements ls c).2 := by
  induction ls generalizing c with
  | nil => exact ⟨.nil, rfl⟩
  | cons letter ls ih =>
      obtain ⟨hr, hcursor⟩ := h letter c
      obtain ⟨hrs, hend⟩ := ih (e letter c).2
      simp only [Expander.replacements, hcursor]
      exact ⟨.cons hr hrs, hend⟩

/-! ## Operands -/

theorem Text.ofString_eq_nil_iff {x : String} : Text.ofString x = [] ↔ x = "" := by
  simp [Text.ofString, Text.ofChars]

theorem Numeral.decimal_ne_empty (v : Int) : Numeral.decimal v ≠ "" := by
  rw [Ne, ← String.toList_eq_nil_iff]
  cases v <;> simp [Numeral.decimal, Numeral.padded, Numeral.decimalDigits, List.leftpad]

@[simp] theorem Options.byteText_ne_empty (o : Options) (v : Int) : o.byteText v ≠ "" := by
  unfold Options.byteText
  split
  · exact Numeral.decimal_ne_empty v
  · simp

@[simp] theorem Options.wordText_ne_empty (o : Options) (v : Int) : o.wordText v ≠ "" := by
  unfold Options.wordText
  split
  · exact Numeral.decimal_ne_empty v
  · simp

namespace Operand

theorem number_named {text : String} (h : text ≠ "") (v : Int) :
    (number text v).named = some v := by
  have hne : Text.ofString text ≠ [] := mt Text.ofString_eq_nil_iff.1 h
  simp [Replacement.named, number, hne]

variable (s : Setting) (decimal bareLabels : Bool) (c : Cursor)

theorem plain_rewords {r r' : Replacement} (h : r.value = none) (h' : r'.value = none)
    (hlabel : r'.isLabel = r.isLabel) (hreference : r'.reference = r.reference)
    (hremark : r'.remark = r.remark) : r.Rewords r' :=
  ⟨by rw [Replacement.named_eq_none h, Replacement.named_eq_none h'], hlabel, hreference, hremark⟩

theorem number_rewords {text text' : String} (h : text ≠ "") (h' : text' ≠ "") (v : Int) :
    (number text v).Rewords (number text' v) :=
  ⟨by rw [number_named h, number_named h'], rfl, rfl, rfl⟩

theorem label_rewords (address : Int) :
    (label s c address).Rewords (label (s.display decimal bareLabels) c address) := by
  have hnamed (s : Setting) : (label s c address).named = some (wrap address) := by
    have hne := s.options.labelName_ne_nil (wrap address)
    simp [label, Replacement.named, hne]
  exact ⟨by rw [hnamed, hnamed], rfl, rfl, rfl⟩

variable {form form' : Int → String}

theorem byte_rewords (h : ∀ v, form v ≠ "") (h' : ∀ v, form' v ≠ "") :
    (byte s form c).1.Rewords (byte (s.display decimal bareLabels) form' c).1 ∧
      (byte (s.display decimal bareLabels) form' c).2 = (byte s form c).2 :=
  ⟨number_rewords (h _) (h' _) _, rfl⟩

theorem word_rewords (h : ∀ v, form v ≠ "") (h' : ∀ v, form' v ≠ "") :
    (word s form c).1.Rewords (word (s.display decimal bareLabels) form' c).1 ∧
      (word (s.display decimal bareLabels) form' c).2 = (word s form c).2 :=
  ⟨number_rewords (h _) (h' _) _, rfl⟩

theorem absolute_rewords :
    (absolute s c).1.Rewords (absolute (s.display decimal bareLabels) c).1 ∧
      (absolute (s.display decimal bareLabels) c).2 = (absolute s c).2 :=
  ⟨label_rewords s decimal bareLabels _ _, rfl⟩

theorem relative_rewords :
    (relative s c).1.Rewords (relative (s.display decimal bareLabels) c).1 ∧
      (relative (s.display decimal bareLabels) c).2 = (relative s c).2 :=
  ⟨label_rewords s decimal bareLabels _ _, rfl⟩

end Operand

/-! ## Instruction sets -/

/-- How numbers and labels are written decides neither about what is selected nor about what the
letters say. -/
structure InstructionSet.Rewordable (cpu : InstructionSet) : Prop where
  select : ∀ s decimal bareLabels c, cpu.select (s.display decimal bareLabels) c = cpu.select s c
  expand : ∀ s decimal bareLabels,
    (cpu.expand s).Rewords (cpu.expand (s.display decimal bareLabels))

theorem Mos6502.rewordable : instructionSet.Rewordable where
  select _ _ _ _ := rfl
  expand s decimal bareLabels letter c := by
    simp only [instructionSet]
    unfold expand
    dsimp only
    split
    case h_7 | h_8 | h_9 | h_10 => exact Operand.word_rewords s _ _ c (by simp) (by simp)
    case h_11 => exact Operand.absolute_rewords s decimal bareLabels c
    case h_12 => exact Operand.relative_rewords s decimal bareLabels c
    case h_13 => exact ⟨⟨rfl, rfl, rfl, rfl⟩, rfl⟩
    all_goals exact Operand.byte_rewords s _ _ c (by simp) (by simp)

theorem Z80.rewordable : instructionSet.Rewordable where
  select _ _ _ _ := rfl
  expand s decimal bareLabels letter c := by
    simp only [instructionSet]
    unfold expand
    dsimp only
    split
    case h_2 => exact Operand.relative_rewords s decimal bareLabels c
    case h_4 => exact Operand.absolute_rewords s decimal bareLabels c
    case h_6 => exact Operand.byte_rewords s _ _ c (by simp) (by simp)
    case h_8 => exact Operand.word_rewords s _ _ c (by simp) (by simp)
    case h_9 => exact ⟨Operand.number_rewords (by simp) (by simp) _, rfl⟩
    all_goals exact ⟨Operand.plain_rewords rfl rfl rfl rfl rfl, rfl⟩

theorem Processor.rewordable (q : Processor) : q.instructionSet.Rewordable := by
  cases q with
  | z80 => exact Z80.rewordable
  | mos6502 => exact Mos6502.rewordable

/-! ## Instructions -/

structure Item.MarksSymbol (item : Item) : Prop where
  position : item.tokenPosition.isSome = item.hasSymbol
  length : item.tokenLength.isSome = item.hasSymbol

theorem Pattern.fill_marksSymbol {item : Item} (h : item.MarksSymbol) (before after : Text)
    (r : Replacement) : (fill item before after r).MarksSymbol := by
  unfold fill
  dsimp only
  split
  · exact ⟨h.position, h.length⟩
  · split
    · exact ⟨h.position, h.length⟩
    · exact ⟨rfl, rfl⟩

theorem Pattern.expandFrom_marksSymbol (e : Expander) (fuel : Nat) {item : Item}
    (h : item.MarksSymbol) (c : Cursor) : (expandFrom e fuel item c).item.MarksSymbol := by
  induction fuel generalizing item c with
  | zero => exact h
  | succ fuel ih =>
      unfold expandFrom
      split
      · exact h
      · exact ih (fill_marksSymbol h _ _ _) _

/-- What was noted, and whether there is a symbol, is all that is seen of a text from outside. -/
theorem Item.outline_eq_of_reword {noted i j : Item}
    (hi : i = noted.reword i.text i.tokenPosition i.tokenLength)
    (hj : j = noted.reword j.text j.tokenPosition j.tokenLength)
    (hmarks : i.MarksSymbol) (hmarks' : j.MarksSymbol) : j.outline = i.outline := by
  have hsymbol : i.hasSymbol = noted.hasSymbol := (congrArg Item.hasSymbol hi :)
  have hsymbol' : j.hasSymbol = noted.hasSymbol := (congrArg Item.hasSymbol hj :)
  have hremark : i.remark = noted.remark := (congrArg Item.remark hi :)
  have hremark' : j.remark = noted.remark := (congrArg Item.remark hj :)
  refine Item.rewords_iff.1 ⟨?_, ?_, ?_, ?_⟩
  · rw [hremark', ← hremark]
    refine hj.trans ?_
    rw [hi]
    rfl
  · rw [hmarks'.position, hmarks.position, hsymbol', hsymbol]
  · rw [hmarks'.length, hmarks.length, hsymbol', hsymbol]
  · rw [hremark', hremark]

def Decoded.outline (d : Decoded) : Decoded := { d with item := d.item.outline }

namespace InstructionSet

variable {cpu : InstructionSet} {a : Alphabet} {longest : Nat}

theorem expansion_marksSymbol (cpu : InstructionSet) (s : Setting) (c : Cursor) :
    (cpu.expansion s c).item.MarksSymbol := by
  have hdraft : (cpu.draft s c).MarksSymbol := ⟨rfl, rfl⟩
  unfold expansion
  dsimp only
  split
  · exact hdraft
  · exact Pattern.expandFrom_marksSymbol _ _ hdraft _

/-- An instruction is the same but for its words. -/
theorem Sound.decode_display (h : cpu.Sound a longest) (hw : cpu.Rewordable) (s : Setting)
    (decimal bareLabels : Bool) (c : Cursor) :
    (cpu.decode (s.display decimal bareLabels) c).outline = (cpu.decode s c).outline := by
  have hselect := hw.select s decimal bareLabels c.begin
  have hdraft : cpu.draft (s.display decimal bareLabels) c = cpu.draft s c := by
    unfold draft
    rw [hselect]
    rfl
  have hx := h.expansion_follows s c
  have hy := h.expansion_follows (s.display decimal bareLabels) c
  have hmarks := cpu.expansion_marksSymbol s c
  have hmarks' := cpu.expansion_marksSymbol (s.display decimal bareLabels) c
  rw [hselect, hdraft] at hy
  obtain ⟨hrs, hend⟩ := (hw.expand s decimal bareLabels).replacements
    (Pattern.marks (cpu.select s c.begin).pattern.text) (cpu.select s c.begin).cursor
  have hitem := hy.item
  rw [Replacement.Rewords.foldl_note hrs] at hitem
  have hcursor : (cpu.expansion (s.display decimal bareLabels) c).cursor =
      (cpu.expansion s c).cursor := by rw [hy.cursor, hx.cursor, hend]
  have hreferences : (cpu.expansion (s.display decimal bareLabels) c).references =
      (cpu.expansion s c).references := by
    rw [hy.references, hx.references, Replacement.Rewords.references hrs]
  have houtline := Item.outline_eq_of_reword hx.item hitem hmarks hmarks'
  have hlisted (bytes : List UInt8) :
      Item.outline { (cpu.expansion (s.display decimal bareLabels) c).item with opcodes := bytes } =
        Item.outline { (cpu.expansion s c).item with opcodes := bytes } :=
    congrArg (fun item : Item => { item with opcodes := bytes }) houtline
  rw [cpu.decode_eq, cpu.decode_eq]
  dsimp only [Decoded.outline]
  rw [hcursor, hreferences, hlisted]

/-! ## Data lines -/

section

variable (cpu : InstructionSet) (s : Setting) (decimal bareLabels : Bool) (r : Region)

theorem byteLine_display (place : Int) (count : Nat) :
    (cpu.byteLine (s.display decimal bareLabels) place count).outline =
      (cpu.byteLine s place count).outline := rfl

theorem wordLine_display (place : Int) (count : Nat) :
    (cpu.wordLine (s.display decimal bareLabels) place count).outline =
      (cpu.wordLine s place count).outline := rfl

theorem gapLine_display : (cpu.gapLine (s.display decimal bareLabels) r).outline =
    (cpu.gapLine s r).outline := rfl

theorem byteLines_display : (cpu.byteLines (s.display decimal bareLabels) r).map Item.outline =
    (cpu.byteLines s r).map Item.outline := by
  simp only [byteLines, List.map_map, Function.comp_def, byteLine_display]

theorem wordLines_display : (cpu.wordLines (s.display decimal bareLabels) r).map Item.outline =
    (cpu.wordLines s r).map Item.outline := by
  unfold wordLines
  split <;> simp only [List.map_append, List.map_map, Function.comp_def, List.map_cons,
    List.map_nil, byteLine_display, wordLine_display]

end

end InstructionSet

end RomListing

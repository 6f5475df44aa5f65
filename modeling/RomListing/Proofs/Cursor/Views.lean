import RomListing.InstructionSet
import RomListing.Operand

/-! # Views of a cursor

One image may be read like another one through a view of the cursors: the view of what was read
is what is read in the view. An instruction set that looks at the image through its cursor alone
then selects the same pattern and makes the same replacements in the view.
-/

namespace RomListing

/-- The view `f` of a cursor over `s` reads `s'` like the cursor reads `s`. It shows the registers
as they are, and the start of the instruction at the same address. -/
structure Cursor.View (s s' : Setting) (f : Cursor → Cursor) : Prop where
  options : s'.options = s.options
  fetch : ∀ c, (f c).fetch s' = ((c.fetch s).1, f (c.fetch s).2)
  registers : ∀ c opcode index displacement,
    f { c with opcode := opcode, index := index, displacement := displacement } =
      { f c with opcode := opcode, index := index, displacement := displacement }
  start : ∀ c, s'.addressOffset + (f c).opStart = s.addressOffset + c.opStart

namespace Cursor.View

variable {s s' : Setting} {f : Cursor → Cursor} (hf : View s s' f)

include hf

theorem kept (c : Cursor) : (f c).opcode = c.opcode ∧ (f c).index = c.index ∧
    (f c).displacement = c.displacement := by
  have hown : f c = { f c with
      opcode := c.opcode, index := c.index, displacement := c.displacement } :=
    hf.registers c c.opcode c.index c.displacement
  exact ⟨(congrArg Cursor.opcode hown :), (congrArg Cursor.index hown :),
    (congrArg Cursor.displacement hown :)⟩

theorem opcode (c : Cursor) : (f c).opcode = c.opcode := (hf.kept c).1

theorem index (c : Cursor) : (f c).index = c.index := (hf.kept c).2.1

theorem displacement (c : Cursor) : (f c).displacement = c.displacement := (hf.kept c).2.2

theorem setOpcode (c : Cursor) (v : Int) :
    { f c with opcode := v } = f { c with opcode := v } := by
  rw [hf.registers c v c.index c.displacement, ← hf.index, ← hf.displacement]

theorem setIndex (c : Cursor) (v : IndexRegister) :
    { f c with index := v } = f { c with index := v } := by
  rw [hf.registers c c.opcode v c.displacement, ← hf.opcode, ← hf.displacement]

theorem setDisplacement (c : Cursor) (v : Option Int) :
    { f c with displacement := v } = f { c with displacement := v } := by
  rw [hf.registers c c.opcode c.index v, ← hf.opcode, ← hf.index]

theorem fetchWord (c : Cursor) :
    (f c).fetchWord s' = ((c.fetchWord s).1, f (c.fetchWord s).2) := by
  simp only [Cursor.fetchWord, hf.fetch]

/-! ## Operands -/

theorem byte (form : Int → String) (c : Cursor) :
    Operand.byte s' form (f c) = ((Operand.byte s form c).1, f (Operand.byte s form c).2) := by
  simp only [Operand.byte, hf.fetch]

theorem word (form : Int → String) (c : Cursor) :
    Operand.word s' form (f c) = ((Operand.word s form c).1, f (Operand.word s form c).2) := by
  simp only [Operand.word, hf.fetchWord]

theorem label (c : Cursor) (address : Int) :
    Operand.label s' (f c) address = Operand.label s c address := by
  have hshown : s'.shownAddress (f c).opStart = s.shownAddress c.opStart := by
    have hstart := hf.start c
    unfold Setting.shownAddress
    rw [Int.add_comm, hstart, Int.add_comm]
  simp only [Operand.label, hf.options, hshown]

theorem absolute (c : Cursor) :
    Operand.absolute s' (f c) = ((Operand.absolute s c).1, f (Operand.absolute s c).2) := by
  simp only [Operand.absolute, hf.fetchWord, hf.label]

theorem relative (c : Cursor) :
    Operand.relative s' (f c) = ((Operand.relative s c).1, f (Operand.relative s c).2) := by
  simp only [Operand.relative, hf.fetch, hf.label, hf.start]

end Cursor.View

/-- Replacements that commute with a view of the cursor do so one after another. -/
theorem Pattern.expandFrom_view {e e' : Expander} {f : Cursor → Cursor}
    (h : ∀ letter c, e' letter (f c) = ((e letter c).1, f (e letter c).2)) (fuel : Nat)
    (item : Item) (c : Cursor) : expandFrom e' fuel item (f c) =
      { expandFrom e fuel item c with cursor := f (expandFrom e fuel item c).cursor } := by
  induction fuel generalizing item c with
  | zero => rfl
  | succ fuel ih =>
      simp only [expandFrom]
      split
      · rfl
      · simp only [h, ih]

/-- Selecting and expanding look at the image through the cursor alone: they commute with its
views. -/
structure InstructionSet.Natural (cpu : InstructionSet) : Prop where
  select : ∀ {s s' : Setting} {f : Cursor → Cursor}, Cursor.View s s' f → ∀ c,
    cpu.select s' (f c) = { cpu.select s c with cursor := f (cpu.select s c).cursor }
  expand : ∀ {s s' : Setting} {f : Cursor → Cursor}, Cursor.View s s' f → ∀ letter c,
    cpu.expand s' letter (f c) = ((cpu.expand s letter c).1, f (cpu.expand s letter c).2)

end RomListing

import RomListing.DataLines
import RomListing.Proofs.Processor
import RomListing.Proofs.Relocation.Cursor

/-! # Listing a moved image

A move is a view of the cursor, with which selecting a pattern and replacing its marks commute. What
is left over in a cursor does not count for an instruction, so that two cursors that meet give the
same item. The lines of a data region are those of the region that lies as far behind it.
-/

namespace RomListing

/-! ## Instruction sets -/

theorem Cursor.view_move (s : Setting) (k : Int) : View s (s.move k) (move k) where
  options := rfl
  fetch := fetch_move s k
  registers _ _ _ _ := rfl
  start c := by
    simp only [Setting.move, move]
    omega

/-- Selecting and expanding commute with a move of the image. -/
structure InstructionSet.Movable (cpu : InstructionSet) : Prop where
  select : ∀ s k c, cpu.select (s.move k) (c.move k) =
    { cpu.select s c with cursor := (cpu.select s c).cursor.move k }
  expand : ∀ s k letter c, cpu.expand (s.move k) letter (c.move k) =
    ((cpu.expand s letter c).1, (cpu.expand s letter c).2.move k)

theorem Processor.movable (q : Processor) : q.instructionSet.Movable where
  select s k := q.natural.select (Cursor.view_move s k)
  expand s k := q.natural.expand (Cursor.view_move s k)

/-! ## Instructions -/

namespace InstructionSet

variable {cpu : InstructionSet} {a : Alphabet} {longest : Nat} {s : Setting} {k : Int}

theorem Sound.decode_move (h : cpu.Sound a longest) (hm : cpu.Movable) (hr : s.options.Repeats k)
    (c : Cursor) : cpu.decode (s.move k) (c.move k) =
      { cpu.decode s c with cursor := (cpu.decode s c).cursor.move k } :=
  h.decode_view (hm.select s k c.begin) (hm.expand s k) (Setting.shownAddress_move k c.offset s)
    (hr c.offset)

/-- Cursors that meet give the same instruction: nothing else that they hold counts. -/
theorem Sound.decode_meets (h : cpu.Sound a longest) (hm : cpu.Movable)
    (hr : s.options.Repeats k) {c c' : Cursor} (hc : c.Meets k c') :
    cpu.decode (s.move k) c' =
      { cpu.decode s c with cursor := (cpu.decode s c).cursor.move k } := by
  have hanew : cpu.decode (s.move k) c' = cpu.decode (s.move k) (c.move k) := by
    rw [h.decode_anew, h.decode_anew (s.move k) (c.move k), hc.offset, hc.overflow]
    rfl
  rw [hanew, h.decode_move hm hr]

end InstructionSet

/-! ## Data lines -/

structure Region.Meets (k : Int) (r r' : Region) : Prop where
  first : (r'.first : Int) = r.first + k
  last : (r'.last : Int) = r.last + k
  kind : r'.kind = r.kind

theorem Region.meets_self (r : Region) : r.Meets 0 r :=
  ⟨(Int.add_zero _).symm, (Int.add_zero _).symm, rfl⟩

theorem Region.Meets.length {k : Int} {r r' : Region} (h : r.Meets k r') :
    r'.length = r.length := by
  have hfirst := h.first
  have hlast := h.last
  have := r.first_le_last
  unfold Region.length
  omega

namespace InstructionSet

variable {cpu : InstructionSet} {a : Alphabet} {longest : Nat} {s : Setting} {k : Int}
  {r r' : Region}

theorem Sound.dataItem_move (h : cpu.Sound a longest) (hr : s.options.Repeats k) (place : Int)
    (bytes : List UInt8) (text : String) :
    cpu.dataItem (s.move k) (place + k) bytes text = cpu.dataItem s place bytes text := by
  unfold dataItem
  dsimp only
  rw [h.shownAddress_fold, h.shownAddress_fold, h.partitionAt_fold, h.partitionAt_fold,
    Setting.shownAddress_move, Setting.move_options, hr]

theorem Sound.byteLine_move (h : cpu.Sound a longest) (hr : s.options.Repeats k) (place : Int)
    (count : Nat) : cpu.byteLine (s.move k) (place + k) count = cpu.byteLine s place count := by
  have hbyte (j : Nat) : (s.move k).image.byteAt (place + k + j) = s.image.byteAt (place + j) := by
    rw [Int.add_right_comm, Setting.byteAt_move]
  unfold byteLine
  simp only [hbyte, Setting.move_options, h.dataItem_move hr]

theorem Sound.wordLine_move (h : cpu.Sound a longest) (hr : s.options.Repeats k) (place : Int)
    (count : Nat) : cpu.wordLine (s.move k) (place + k) count = cpu.wordLine s place count := by
  have hlow (j : Nat) : (s.move k).image.byteAt (place + k + 2 * j) =
      s.image.byteAt (place + 2 * j) := by
    rw [Int.add_right_comm, Setting.byteAt_move]
  have hhigh (j : Nat) : (s.move k).image.byteAt (place + k + 2 * j + 1) =
      s.image.byteAt (place + 2 * j + 1) := by
    rw [Int.add_right_comm place k, Int.add_right_comm _ k, Setting.byteAt_move]
  unfold wordLine
  simp only [hlow, hhigh, Setting.move_options, h.dataItem_move hr]

/-- A row that starts `i` bytes into the region. -/
theorem Region.Meets.row (hm : r.Meets k r') (i : Nat) :
    ((r'.first + i : Nat) : Int) = (r.first + i : Nat) + k := by
  have := hm.first
  omega

theorem Sound.byteLines_meets (h : cpu.Sound a longest) (hr : s.options.Repeats k)
    (hm : r.Meets k r') : cpu.byteLines (s.move k) r' = cpu.byteLines s r := by
  unfold byteLines
  simp only [hm.length, Region.Meets.row hm, h.byteLine_move hr]

theorem Sound.wordLines_meets (h : cpu.Sound a longest) (hr : s.options.Repeats k)
    (hm : r.Meets k r') : cpu.wordLines (s.move k) r' = cpu.wordLines s r := by
  unfold wordLines
  simp only [hm.length, Region.Meets.row hm, hm.last, h.wordLine_move hr, h.byteLine_move hr]

theorem Sound.gapLine_meets (h : cpu.Sound a longest) (hr : s.options.Repeats k)
    (hm : r.Meets k r') : cpu.gapLine (s.move k) r' = cpu.gapLine s r := by
  unfold gapLine
  simp only [hm.length, hm.first, Setting.move_options, h.dataItem_move hr]

end InstructionSet

end RomListing

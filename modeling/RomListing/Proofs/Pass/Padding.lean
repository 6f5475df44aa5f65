import Mathlib.Data.List.Basic
import RomListing.Proofs.Pass.Junctions

/-! # Zeros behind the image

Where a byte is missing at the end of the image a 0 is read, as if zeros lay there. A cursor over
the image is a view of one over the image with zeros behind it: it stops where the image ends, and
what it takes is what the image has. So an instruction that the end of the image cuts off is the
one that the zeros complete, without their bytes.
-/

namespace RomListing

namespace Image

def padded (m : Image) (k : Nat) : Image := { m with bytes := m.bytes ++ Array.replicate k 0 }

variable {m : Image} {a : Int} {k : Nat}

@[simp] theorem last_padded (m : Image) (k : Nat) : (m.padded k).last = m.last + k := by
  simp only [last, padded, Array.size_append, Array.size_replicate]
  omega

theorem byte?_padded (h : a ≤ m.last) : (m.padded k).byte? a = m.byte? a := by
  unfold last at h
  unfold byte? padded
  dsimp only
  split
  · rfl
  · exact Array.getElem?_append_left (by omega)

/-- Behind the image there are zeros, and then nothing. -/
theorem byte?_padded_of_last_lt (h : m.last < a) :
    (m.padded k).byte? a = none ∨ (m.padded k).byte? a = some 0 := by
  unfold last at h
  unfold byte? padded
  dsimp only
  split
  · exact .inl rfl
  · rw [Array.getElem?_append_right (by omega), Array.getElem?_replicate]
    split
    · exact .inr rfl
    · exact .inl rfl

@[simp] theorem byteAt_padded (m : Image) (k : Nat) (a : Int) :
    (m.padded k).byteAt a = m.byteAt a := by
  by_cases h : a ≤ m.last
  · rw [byteAt, byte?_padded h, byteAt]
  · have hbehind : m.last < a := by omega
    rw [byteAt_of_last_lt hbehind, byteAt]
    rcases byte?_padded_of_last_lt (k := k) hbehind with hb | hb
    all_goals
      rw [hb]
      rfl

end Image

def Setting.padded (s : Setting) (k : Nat) : Setting := { s with image := s.image.padded k }

theorem Setting.le_last_padded {s : Setting} {place : Int} (h : place ≤ s.image.last) (k : Nat) :
    place ≤ (s.padded k).image.last := by
  show place ≤ (s.image.padded k).last
  rw [Image.last_padded]
  omega

/-! ## Cursors -/

namespace Cursor

/-- The cursor as it is if nothing can be read from `bound` on. -/
def cut (bound : Int) (c : Cursor) : Cursor :=
  { c with
    offset := min c.offset bound
    taken := c.taken.take (c.taken.size - (c.offset - bound).toNat)
    overflow := c.overflow || decide (bound < c.offset) }

theorem cut_of_le {bound : Int} {c : Cursor} (h : c.offset ≤ bound) : c.cut bound = c := by
  have hnone : (c.offset - bound).toNat = 0 := by omega
  have hbehind : ¬bound < c.offset := by omega
  simp [cut, hnone, hbehind, Int.min_eq_left h]

/-- What is read behind the bound counts for nothing. -/
theorem cut_push {bound : Int} {c : Cursor} (h : bound ≤ c.offset) (b : UInt8) :
    cut bound { c with taken := c.taken.push b, offset := c.offset + 1 } =
      { c.cut bound with overflow := true } := by
  have hsize : (c.taken.push b).size - (c.offset + 1 - bound).toNat =
      c.taken.size - (c.offset - bound).toNat := by
    rw [Array.size_push]
    omega
  have hbehind : bound < c.offset + 1 := by omega
  have htaken : (c.taken.push b).take (c.taken.size - (c.offset - bound).toNat) =
      c.taken.take (c.taken.size - (c.offset - bound).toNat) :=
    Array.extract_push_of_le (Nat.sub_le _ _)
  simp only [cut, hsize, htaken, hbehind, decide_true, Bool.or_true, Int.min_eq_right h,
    Int.min_eq_right (Int.le_of_lt hbehind)]

theorem view_cut (s : Setting) (k : Nat) : View (s.padded k) s (cut (s.image.last + 1)) where
  options := rfl
  fetch c := by
    by_cases h : c.offset ≤ s.image.last
    · rw [cut_of_le (by omega)]
      unfold fetch Setting.padded
      dsimp only
      rw [Image.byte?_padded h]
      cases s.image.byte? c.offset with
      | none => rw [cut_of_le (by dsimp only; omega)]
      | some b => rw [cut_of_le (by dsimp only; omega)]
    · have hnone : s.image.byte? (c.cut (s.image.last + 1)).offset = none := by
        rw [← Option.not_isSome_iff_eq_none, Image.byte?_isSome_iff]
        simp only [cut]
        omega
      unfold fetch Setting.padded
      rw [hnone]
      rcases Image.byte?_padded_of_last_lt (k := k) (Int.not_le.1 h) with hb | hb
      · rw [hb]
        simp [cut]
      · rw [hb]
        dsimp only
        rw [cut_push (by omega)]
  registers _ _ _ _ := rfl
  start _ := rfl

end Cursor

/-! ## Items -/

/-- The item with those of its bytes that the image has. -/
def Setting.clip (s : Setting) (item : Item) : Item :=
  { item with opcodes := item.opcodes.take (s.image.last + 1 - s.place item).toNat }

theorem Setting.clip_of_inside {s : Setting} {item : Item}
    (h : s.place item + item.opcodes.length ≤ s.image.last + 1) : s.clip item = item := by
  have hall : item.opcodes.take (s.image.last + 1 - s.place item).toNat = item.opcodes :=
    List.take_of_length_le (by omega)
  unfold clip
  rw [hall]

namespace InstructionSet

variable {cpu : InstructionSet} {a : Alphabet} {longest : Nat} {s : Setting} {k : Nat}

/-- An instruction that starts in the image is that of the image with zeros behind it, cut off
where the image ends. -/
theorem Sound.decode_padded (h : cpu.Sound a longest) (hn : cpu.Natural) {place : Int}
    (hpos : 0 ≤ s.image.base) (hbase : s.image.base ≤ place) (hlast : place ≤ s.image.last)
    (hlt : place < 0x10000) :
    let d := cpu.decode (s.padded k) { offset := place }
    cpu.decode s { offset := place } =
      ⟨s.clip d.item, d.references, d.cursor.cut (s.image.last + 1)⟩ := by
  intro d
  have hview := Cursor.view_cut s k
  have hfresh : Cursor.cut (s.image.last + 1) (Cursor.begin { offset := place }) =
      Cursor.begin { offset := place } := Cursor.cut_of_le (by simp only [Cursor.begin]; omega)
  have hselect := hn.select hview (Cursor.begin { offset := place })
  rw [hfresh] at hselect
  have hdecode := h.decode_view (c := { offset := place }) hselect (hn.expand hview) rfl rfl
  obtain ⟨-, -, hoffset, -⟩ :=
    h.decode_within (s := s.padded k) hbase (Setting.le_last_padded hlast k)
  have hplace : s.place d.item = place :=
    Setting.place_of_shown (h.decode_frame (s.padded k) _).1 (by omega) hlt
  have hopcodes : (d.cursor.cut (s.image.last + 1)).taken.toList =
      d.item.opcodes.take (s.image.last + 1 - s.place d.item).toNat := by
    have htaken : d.item.opcodes = d.cursor.taken.toList := rfl
    have hoffset : d.cursor.offset = place + d.cursor.taken.toList.length := hoffset
    rw [hplace, htaken]
    simp only [Cursor.cut, Array.toList_extract, List.extract_eq_take_drop, List.drop_zero,
      Nat.sub_zero]
    rw [Array.length_toList] at hoffset
    -- nothing is left out of an instruction that ends in the image
    by_cases hin : d.cursor.offset ≤ s.image.last + 1
    · rw [List.take_of_length_le, List.take_of_length_le]
      · rw [Array.length_toList]
        omega
      · rw [Array.length_toList]
        omega
    · congr 1
      omega
  rw [hdecode]
  show (⟨{ d.item with opcodes := _ }, d.references, _⟩ : Decoded) = _
  rw [hopcodes]
  rfl

/-- The instructions of a part in the image, one by one. -/
theorem Sound.walk_padded (h : cpu.Sound a longest) (hn : cpu.Natural) {last : Int}
    (hpos : 0 ≤ s.image.base) (hlast : last ≤ s.image.last) (hlt : last < 0x10000) (fuel : Nat)
    {place : Int} (hbase : s.image.base ≤ place) :
    cpu.walk s last fuel place = (cpu.walk (s.padded k) last fuel place).map s.clip := by
  induction fuel generalizing place with
  | zero => rfl
  | succ fuel ih =>
      by_cases hle : place ≤ last
      · have hdecode := h.decode_padded (k := k) hn hpos hbase (Int.le_trans hle hlast) (by omega)
        obtain ⟨hsome, -, hoffset, -⟩ := h.decode_within (s := s.padded k) hbase
          (Setting.le_last_padded (Int.le_trans hle hlast) k)
        rw [walk_succ hle, walk_succ hle, hdecode]
        dsimp only
        generalize cpu.decode (s.padded k) { offset := place } = d at *
        rw [List.map_cons]
        refine congrArg (s.clip d.item :: ·) ?_
        by_cases hin : d.cursor.offset ≤ s.image.last + 1
        · rw [Cursor.cut_of_le hin]
          cases d.cursor.overflow with
          | true => rfl
          | false => exact ih (by omega)
        · -- the zeros end behind the part
          have hover : (d.cursor.cut (s.image.last + 1)).overflow = true := by
            simp only [Cursor.cut, Bool.or_eq_true, decide_eq_true_eq]
            omega
          rw [hover, if_pos rfl, walk_of_lt (by omega), ite_self, List.map_nil]
      · rw [walk_of_lt (by omega), walk_of_lt (by omega), List.map_nil]

theorem byteLine_padded (place : Int) (n : Nat) :
    cpu.byteLine (s.padded k) place n = cpu.byteLine s place n := by
  unfold byteLine Setting.padded
  simp only [Image.byteAt_padded]
  rfl

theorem wordLine_padded (place : Int) (n : Nat) :
    cpu.wordLine (s.padded k) place n = cpu.wordLine s place n := by
  unfold wordLine Setting.padded
  simp only [Image.byteAt_padded]
  rfl

/-- The lines of a part in the image. -/
theorem Sound.lines_padded (h : cpu.Sound a longest) (hn : cpu.Natural) {r : Region}
    (hpos : 0 ≤ s.image.base) (hbase : s.image.base ≤ r.first) (hlast : r.last ≤ s.image.last) :
    cpu.lines s r = (cpu.lines (s.padded k) r).map s.clip := by
  have hlt := r.last_lt
  by_cases hk : r.kind = .code
  · unfold lines
    rw [hk]
    exact h.walk_padded hn hpos hlast (by omega) r.length hbase
  · have hsame : cpu.lines (s.padded k) r = cpu.lines s r := by
      unfold lines
      split
      · contradiction
      · simp only [byteLines, byteLine_padded]
      · simp only [byteLines, byteLine_padded]
      · simp only [wordLines, wordLine_padded, byteLine_padded]
      · rfl
    have hinside : ∀ item ∈ cpu.lines s r, s.clip item = item := by
      intro item hi
      obtain ⟨⟨stop, hchain, -, hstop⟩, hstarts⟩ := h.lines_tile hpos hbase hlast
      have hwithin := hchain.within item hi
      refine Setting.clip_of_inside ?_
      by_cases hgap : r.kind = .gap
      · have hnone : item.opcodes.length = 0 := by
          rw [(hstarts item hi).2.of_gap hgap]
          rfl
        have := (hstarts item hi).1
        omega
      · rw [overhang, if_neg hk] at hstop
        rw [r.stretch_of_ne hgap] at hwithin
        omega
    rw [hsame, List.map_congr_left hinside, List.map_id']

end InstructionSet

/-! ## Runs -/

namespace Output

def clip (s : Setting) (o : Output) : Output := { o with items := o.items.map s.clip }

theorem lines_clip (s : Setting) (o : Output) : (o.clip s).lines = o.lines.map s.clip := by
  simp only [lines, clip, Array.toList_map, List.map_map]
  rfl

theorem Flagged.clip {o : Output} (h : o.Flagged) (s : Setting) : (o.clip s).Flagged := by
  intro before item after hsplit
  simp only [Output.clip, Array.toList_map] at hsplit
  obtain ⟨before', rest, hitems, rfl, hrest⟩ := List.map_eq_append_iff.1 hsplit
  obtain ⟨item', after', rfl, rfl, rfl⟩ := List.map_eq_cons_iff.1 hrest
  have hflag := h before' item' after' hitems
  rw [List.forall_mem_map]
  exact hflag

end Output

namespace Job

/-- The request reaches no further with zeros behind the image. -/
theorem window_padded (cpu : InstructionSet) (map : MemoryMap) (s : Setting) (k : Nat)
    {first last : Int} (hlast : last ≤ s.image.last) :
    (⟨cpu, map, s.padded k⟩ : Job).window first last = (⟨cpu, map, s⟩ : Job).window first last := by
  have hend : min last (min (s.image.padded k).last cpu.addressMask) =
      min last (min s.image.last cpu.addressMask) := by
    rw [Image.last_padded]
    omega
  show (if max first s.image.base > min last (min (s.image.padded k).last cpu.addressMask) then none
    else some (Region.span (max first s.image.base)
      (min last (min (s.image.padded k).last cpu.addressMask)) .code)) = _
  rw [hend]
  rfl

/-- A pass without an extension over a request that ends in the image gives the same output with
any number of zeros behind the image, but for the bytes that the image does not have: the same
items, flags and all, and the same labels with their references, or nothing in both cases. -/
theorem run_padded (q : Processor) (map : MemoryMap) (s : Setting) (k : Nat) (first last : Int)
    (hbase : 0 ≤ s.image.base) (hlast : last ≤ s.image.last) :
    ((⟨q.instructionSet, map, s⟩ : Job).run .absent () first last).output =
      ((⟨q.instructionSet, map, s.padded k⟩ : Job).run .absent () first last).output.map
        (Output.clip s) := by
  let job : Job := ⟨q.instructionSet, map, s⟩
  let job' : Job := ⟨q.instructionSet, map, s.padded k⟩
  have hsound : job.cpu.Sound q.alphabet q.longest := q.sound
  have hsound' : job'.cpu.Sound q.alphabet q.longest := q.sound
  have hwindow : job'.window first last = job.window first last := window_padded _ map s k hlast
  show (job.run .absent () first last).output = (job'.run .absent () first last).output.map _
  by_cases hrange : max first s.image.base ≤ min last (min s.image.last 0xFFFF)
  · have hrange' : max first s.image.base ≤ min last (min (s.image.padded k).last 0xFFFF) := by
      rw [Image.last_padded]
      omega
    obtain ⟨o, window, ho, hshown, hw, -, -, hlines⟩ :=
      job.run_lines hsound first last hbase hrange
    obtain ⟨o', window', ho', hshown', -, -, -, hlines'⟩ :=
      job'.run_lines hsound' first last hbase hrange'
    obtain rfl : window = window' := by
      rw [hwindow, hshown] at hshown'
      exact Option.some.inj hshown'
    have hsame : o.lines = (o'.clip s).lines := by
      rw [Output.lines_clip, hlines, hlines']
      unfold lines
      rw [List.map_flatMap]
      refine List.flatMap_congr fun r hr => ?_
      have hbounds := part_bounds hr
      have hfirst := hw.first
      have hend := hw.last
      exact hsound.lines_padded q.natural hbase (by omega) (by omega)
    have hlabels : o.labels = (o'.clip s).labels := by
      show o.labels = o'.labels
      rw [run_labels hsound ho, run_labels hsound' ho', hsame, Output.lines_clip, List.flatMap_map]
      rfl
    have hflagged : o.Flagged := run_flagged job q rfl hbase ho
    have hflagged' : o'.Flagged := run_flagged job' q rfl hbase ho'
    rw [ho, ho', Option.map_some, (hflagged'.clip s).eq hflagged hsame hlabels]
  · have hrange' :
        ¬max first s.image.base ≤ min last (min (s.image.padded k).last 0xFFFF) := by
      rw [Image.last_padded]
      omega
    rw [run_output_none job hsound.mask .absent () hrange,
      run_output_none job' hsound'.mask .absent () hrange', Option.map_none]

/-- A jump of which the image lacks a byte: with zeros behind it the instruction and its label are
the same. -/
theorem run_padded_cut_jump :
    let s : Setting := { image := { bytes := #[0x3E, 0x07, 0xC3, 0x34], base := 0x100 } }
    let map : MemoryMap := .ofList [.span 0 0xFFFF .code]
    let output (s : Setting) : Option Output :=
      ((⟨Processor.z80.instructionSet, map, s⟩ : Job).run .absent () 0 0x103).output
    output s = (output (s.padded 3)).map (Output.clip s) ∧
      (output s).map (fun o => o.lines.map Item.opcodes) = some [[0x3E, 0x07], [0xC3, 0x34]] ∧
      (output (s.padded 3)).map (fun o => o.lines.map Item.opcodes) =
        some [[0x3E, 0x07], [0xC3, 0x34, 0x00]] ∧
      (output s).map Output.labels = some [⟨0x34, [0x102]⟩] :=
  ⟨run_padded .z80 (.ofList [.span 0 0xFFFF .code])
      { image := { bytes := #[0x3E, 0x07, 0xC3, 0x34], base := 0x100 } } 3 0 0x103
      (by decide) (by decide), by decide +kernel, by decide +kernel, by decide +kernel⟩

end Job

end RomListing

import Mathlib.Data.List.Basic
import RomListing.Proofs.Listing.DataText
import RomListing.Proofs.Output.Edits
import RomListing.Proofs.Pass.Coverage

/-! # The lines of data parts

A byte part is cut into eights, a word part into four words a line and perhaps a last byte. The
lines list the part byte for byte, and so do their texts: whatever is listed around them, what is
read from a line is what the image has there.
-/

namespace RomListing

namespace Image

/-- Rows of bytes, each from one cut to the next. -/
theorem slice_rows (m : Image) (a : Int) {cut : Nat → Nat} (hzero : cut 0 = 0)
    (hmono : ∀ i, cut i ≤ cut (i + 1)) (n : Nat) :
    ((List.range n).flatMap fun i => m.slice (a + cut i) (cut (i + 1) - cut i)) =
      m.slice a (cut n) := by
  induction n with
  | zero => rw [hzero]; rfl
  | succ n ih =>
      have hcut : cut (n + 1) = cut n + (cut (n + 1) - cut n) := by
        have := hmono n
        omega
      rw [List.range_succ, List.flatMap_append, ih, List.flatMap_singleton, ← slice_add, ← hcut]

end Image

namespace InstructionSet

variable {cpu : InstructionSet} {a : Alphabet} {longest : Nat} {s : Setting} {p : Region}

theorem byteLine_opcodes (place : Int) (n : Nat) :
    (cpu.byteLine s place n).opcodes = s.image.slice place n :=
  s.image.map_range_byteAt place n

theorem wordLine_opcodes (place : Int) (n : Nat) :
    (cpu.wordLine s place n).opcodes = s.image.slice place (2 * n) := by
  show ((List.range n).map _).flatMap _ = _
  induction n with
  | zero => rfl
  | succ n ih =>
      rw [List.range_succ, List.map_append, List.flatMap_append, ih, Nat.mul_succ, Image.slice_add]
      refine congrArg (s.image.slice place (2 * n) ++ ·) ?_
      simp [Image.slice]

/-- The item lists a line of data from `place` on, and its text says the same. -/
structure DataRow (cpu : InstructionSet) (s : Setting) (place : Int) (line : DataLine)
    (item : Item) : Prop where
  address : item.address = s.shownAddress place
  opcodes : item.opcodes = line.memory
  text : DataLine.read? cpu item.text = some line

/-- A byte part is listed in eights. -/
structure ByteRows (cpu : InstructionSet) (s : Setting) (p : Region) (items : List Item) :
    Prop where
  count : items.length = (p.length + 7) / 8
  rows : ∀ j item, items[j]? = some item → ∃ values,
    values.length = min 8 (p.length - 8 * j) ∧
      DataRow cpu s (p.first + 8 * j : Nat) (.bytes values) item

/-- A word part is listed four words a line, with a line for the last byte if it is left over. -/
structure WordRows (cpu : InstructionSet) (s : Setting) (p : Region) (lines odd : List Item) :
    Prop where
  count : lines.length = (p.length / 2 + 3) / 4
  rows : ∀ j item, lines[j]? = some item → ∃ values,
    values.length = min 4 (p.length / 2 - 4 * j) ∧
      DataRow cpu s (p.first + 8 * j : Nat) (.words values) item
  odd_count : odd.length = p.length % 2
  odd_row : ∀ item ∈ odd, ∃ value, DataRow cpu s p.last (.bytes [value]) item

theorem Sound.byteLine_row (h : cpu.Sound a longest) (hd : DataLine.Apart cpu) (place : Int)
    {n : Nat} (hpos : 0 < n) : ∃ values, values.length = n ∧
      DataRow cpu s place (.bytes values) (cpu.byteLine s place n) := by
  refine ⟨(cpu.byteLine s place n).opcodes.map UInt8.toNat, ?_, h.shownAddress_fold s place,
    (DataLine.memory_bytes _).symm, DataLine.read?_byteLine hd s place hpos⟩
  rw [List.length_map, byteLine_length]

theorem Sound.wordLine_row (h : cpu.Sound a longest) (hd : DataLine.Apart cpu) (place : Int)
    {n : Nat} (hpos : 0 < n) : ∃ values, values.length = n ∧
      DataRow cpu s place (.words values) (cpu.wordLine s place n) := by
  obtain ⟨values, hlength, hread, hmemory⟩ := DataLine.read?_wordLine hd s place hpos
  exact ⟨values, hlength, h.shownAddress_fold s place, hmemory.symm, hread⟩

theorem getElem?_rows {row : Nat → Item} {n j : Nat} {item : Item}
    (h : ((List.range n).map row)[j]? = some item) : j < n ∧ item = row j := by
  rw [List.getElem?_map, Option.map_eq_some_iff] at h
  obtain ⟨i, hi, rfl⟩ := h
  obtain ⟨hj, rfl⟩ := List.getElem?_eq_some_iff.1 hi
  rw [List.length_range] at hj
  simpa using hj

theorem Sound.byteLines_rows (h : cpu.Sound a longest) (hd : DataLine.Apart cpu) :
    ByteRows cpu s p (cpu.byteLines s p) := by
  refine ⟨by simp [byteLines], fun j item hitem => ?_⟩
  obtain ⟨hj, rfl⟩ := getElem?_rows hitem
  exact h.byteLine_row hd _ (by omega)

theorem byteLines_opcodes :
    (cpu.byteLines s p).flatMap Item.opcodes = s.image.slice p.first p.length := by
  let cut (i : Nat) : Nat := min (8 * i) p.length
  have hrow : ∀ i ∈ List.range ((p.length + 7) / 8),
      (cpu.byteLine s (p.first + 8 * i : Nat) (min 8 (p.length - 8 * i))).opcodes =
        s.image.slice (p.first + cut i) (cut (i + 1) - cut i) := by
    intro i hi
    have hi := List.mem_range.1 hi
    have hcut : cut i = 8 * i := by simp only [cut]; omega
    have hsize : cut (i + 1) - cut i = min 8 (p.length - 8 * i) := by simp only [cut]; omega
    rw [byteLine_opcodes, hsize, hcut, Int.natCast_add]
  have hend : cut ((p.length + 7) / 8) = p.length := by simp only [cut]; omega
  have hzero : cut 0 = 0 := Nat.zero_min _
  have hmono (i : Nat) : cut i ≤ cut (i + 1) := by simp only [cut]; omega
  unfold byteLines
  rw [List.flatMap_map, List.flatMap_congr hrow,
    Image.slice_rows s.image p.first hzero hmono, hend]

def wholeWords (cpu : InstructionSet) (s : Setting) (p : Region) : List Item :=
  (List.range ((p.length + 6) / 8)).map fun i =>
    cpu.wordLine s (p.first + 8 * i : Nat) (min 4 ((p.length - 8 * i) / 2))

def oddByte (cpu : InstructionSet) (s : Setting) (p : Region) : List Item :=
  if p.length % 2 = 1 then [cpu.byteLine s p.last 1] else []

theorem wordLines_eq : cpu.wordLines s p = wholeWords cpu s p ++ oddByte cpu s p := by
  unfold wordLines oddByte
  split
  · rfl
  · exact (List.append_nil _).symm

theorem Sound.wordLines_rows (h : cpu.Sound a longest) (hd : DataLine.Apart cpu) :
    WordRows cpu s p (wholeWords cpu s p) (oddByte cpu s p) where
  count := by
    simp only [wholeWords, List.length_map, List.length_range]
    omega
  rows := by
    intro j item hitem
    obtain ⟨hj, rfl⟩ := getElem?_rows hitem
    have hsize : min 4 ((p.length - 8 * j) / 2) = min 4 (p.length / 2 - 4 * j) := by omega
    rw [hsize]
    exact h.wordLine_row hd _ (by omega)
  odd_count := by
    unfold oddByte
    split
    · exact Eq.symm ‹_›
    · exact (Nat.mod_two_ne_one.1 ‹_›).symm
  odd_row := by
    intro item hi
    unfold oddByte at hi
    split at hi
    · rw [List.mem_singleton.1 hi]
      obtain ⟨values, hlength, hrow⟩ := h.byteLine_row (s := s) hd p.last Nat.one_pos
      obtain ⟨value, rfl⟩ := List.length_eq_one_iff.1 hlength
      exact ⟨value, hrow⟩
    · cases hi

theorem wordLines_opcodes :
    (cpu.wordLines s p).flatMap Item.opcodes = s.image.slice p.first p.length := by
  let cut (i : Nat) : Nat := min (8 * i) (2 * (p.length / 2))
  have hrow : ∀ i ∈ List.range ((p.length + 6) / 8),
      (cpu.wordLine s (p.first + 8 * i : Nat) (min 4 ((p.length - 8 * i) / 2))).opcodes =
        s.image.slice (p.first + cut i) (cut (i + 1) - cut i) := by
    intro i hi
    have hi := List.mem_range.1 hi
    have hcut : cut i = 8 * i := by simp only [cut]; omega
    have hsize : cut (i + 1) - cut i = 2 * min 4 ((p.length - 8 * i) / 2) := by
      simp only [cut]
      omega
    rw [wordLine_opcodes, hsize, hcut, Int.natCast_add]
  have hend : cut ((p.length + 6) / 8) = 2 * (p.length / 2) := by simp only [cut]; omega
  have hzero : cut 0 = 0 := Nat.zero_min _
  have hmono (i : Nat) : cut i ≤ cut (i + 1) := by simp only [cut]; omega
  have hwhole : (wholeWords cpu s p).flatMap Item.opcodes =
      s.image.slice p.first (2 * (p.length / 2)) := by
    unfold wholeWords
    rw [List.flatMap_map, List.flatMap_congr hrow,
      Image.slice_rows s.image p.first hzero hmono, hend]
  have hodd : (oddByte cpu s p).flatMap Item.opcodes =
      s.image.slice (p.first + (2 * (p.length / 2) : Nat)) (p.length % 2) := by
    have hlength : p.length = p.last - p.first + 1 := rfl
    have hle := p.first_le_last
    unfold oddByte
    split
    · have hlast : (p.last : Int) = p.first + (2 * (p.length / 2) : Nat) := by omega
      rw [List.flatMap_singleton, byteLine_opcodes, hlast, ‹p.length % 2 = 1›]
    · rw [Nat.mod_two_ne_one.1 ‹_›]
      rfl
  rw [wordLines_eq, List.flatMap_append, hwhole, hodd, ← Image.slice_add, Nat.div_add_mod]

end InstructionSet

/-! ## Parts among others -/

namespace Pass

variable {σ : Type} {job : Job} {ext : Extension σ}

theorem decodeStep_grows (p : Pass σ) :
    p.output.lines <+: (p.decodeStep job ext).output.lines := by
  unfold decodeStep
  dsimp only
  rw [← Output.lines_refer p.output (job.cpu.decode job.setting p.cursor).references]
  exact ⟨_, (Output.lines_addAll _ [_]).symm⟩

theorem absorb_grows (p : Pass σ) (step : Step σ) :
    p.output.lines <+: (p.absorb step).output.lines := by
  unfold absorb
  dsimp only
  rw [Output.lines_refer, Output.lines_addAll]
  exact List.prefix_append _ _

theorem codeStep_grows (p : Pass σ) : p.output.lines <+: (p.codeStep job ext).output.lines := by
  have habsorb := absorb_grows { p with started := p.started + 1 }
    (ext.before job.setting p.cursor p.state)
  unfold codeStep
  dsimp only
  split
  · split
    · exact habsorb.trans (decodeStep_grows _)
    · exact habsorb
  · exact habsorb.trans (decodeStep_grows _)

theorem codeLoop_grows (last : Int) (fuel : Nat) (p : Pass σ) :
    p.output.lines <+: (codeLoop job ext last fuel p).output.lines := by
  induction fuel generalizing p with
  | zero => exact List.prefix_rfl
  | succ fuel ih =>
      unfold codeLoop
      split
      · exact (codeStep_grows p).trans (ih _)
      · exact List.prefix_rfl

theorem addLines_grows (p : Pass σ) (items : List Item) :
    p.output.lines <+: (p.addLines items).output.lines := by
  unfold addLines
  dsimp only
  rw [Output.lines_addAll]
  exact List.prefix_append _ _

/-- A part puts its lines behind those of the parts before it. -/
theorem part_grows (p : Pass σ) (r : Region) :
    p.output.lines <+: (p.part job ext r).output.lines := by
  unfold part
  dsimp only
  cases r.kind with
  | code =>
      unfold codePart fixup
      dsimp only
      rw [Output.lines_fixup]
      let entered : Pass σ := { p.note [.part r] with state := (ext.enter r p.state).1 }
      exact codeLoop_grows r.last r.length ((entered.note (ext.enter r p.state).2).seek r)
  | bytes | words | gap => exact addLines_grows _ _
  | custom =>
      let start : Pass σ := (p.note [.part r]).seek r
      have habsorb := absorb_grows start (ext.custom job.setting r start.cursor start.state)
      unfold customPart fixup
      dsimp only
      split
      · rw [Output.lines_fixup]
        exact habsorb
      · exact habsorb.trans (addLines_grows _ _)

theorem parts_grows (job : Job) (ext : Extension σ) (rs : List Region) (p : Pass σ) :
    p.output.lines <+: (rs.foldl (part job ext) p).output.lines := by
  induction rs generalizing p with
  | nil => exact List.prefix_rfl
  | cons r rs ih => exact (part_grows p r).trans (ih _)

/-- A data part puts its own lines behind those of the parts before it. -/
theorem part_data (p : Pass σ) {r : Region} (hk : r.kind = .bytes ∨ r.kind = .words) :
    (p.part job ext r).output.lines = p.output.lines ++ job.cpu.lines job.setting r := by
  have hcode : r.kind ≠ .code := by rcases hk with hk | hk <;> simp [hk]
  have hplain : ∀ item ∈ job.cpu.lines job.setting r, item.hasLabel = false :=
    fun item hi => (InstructionSet.isData_lines hcode item hi).1
  unfold part
  unfold InstructionSet.lines at hplain ⊢
  rcases hk with hk | hk
  all_goals
    rw [hk] at hplain ⊢
    exact Output.lines_addAll_of_plain _ hplain

end Pass

namespace Job

/-- The lines of a data part stand in the output in one piece, whatever an extension lists before
and after it. -/
theorem listing_data {σ : Type} (job : Job) (ext : Extension σ) (state : σ) {window r : Region}
    (hr : r ∈ job.parts window) (hk : r.kind = .bytes ∨ r.kind = .words) :
    job.cpu.lines job.setting r <:+: (job.listing ext state window).lines := by
  obtain ⟨ps, rs, hparts⟩ := List.append_of_mem hr
  unfold listing
  rw [hparts, List.foldl_append, List.foldl_cons, Output.lines_fixup]
  obtain ⟨after, hafter⟩ := Pass.parts_grows job ext rs
    ((ps.foldl (Pass.part job ext) { cursor := { offset := 0 }, state := state }).part job ext r)
  rw [Pass.part_data _ hk] at hafter
  exact ⟨_, after, hafter⟩

/-- The data parts of a run over a range that meets the image in the address space, with any
extension: a byte part is listed in eights and a word part in four words a line, with a line for
the last byte if it is left over, the lines list the bytes of the image that the part has, no more
and no less, and the text of every line is read as the same numbers. -/
theorem run_lists_data {σ : Type} (q : Processor) (ext : Extension σ) (state : σ) (map : MemoryMap)
    (s : Setting) (first last : Int) (hbase : 0 ≤ s.image.base)
    (hrange : max first s.image.base ≤ min last (min s.image.last 0xFFFF)) :
    let job : Job := ⟨q.instructionSet, map, s⟩
    ∃ o window, (job.run ext state first last).output = some o ∧
      job.window first last = some window ∧
      ∀ r ∈ job.parts window, r.kind = .bytes ∨ r.kind = .words →
        ∃ items, items <:+: o.lines ∧
          items.flatMap Item.opcodes = (s.image.bytes.extract (r.first - s.image.base).toNat
            (r.last + 1 - s.image.base).toNat).toList ∧
          (r.kind = .bytes → InstructionSet.ByteRows q.instructionSet s r items) ∧
          (r.kind = .words → ∃ lines odd, items = lines ++ odd ∧
            InstructionSet.WordRows q.instructionSet s r lines odd) := by
  intro job
  have hsound : job.cpu.Sound q.alphabet q.longest := q.sound
  have happart : DataLine.Apart job.cpu := DataLine.apart q
  have hmask : job.cpu.addressMask = 0xFFFF := hsound.mask
  obtain ⟨window, hwindow, hfirst, hlast⟩ := window_eq_some hmask hbase hrange
  refine ⟨job.listing ext state window, window, ?_, hwindow, ?_⟩
  · rw [run_output, job.bytes_nonempty hrange, hwindow]
    rfl
  · intro r hr hk
    have hbounds := part_bounds hr
    have hfirst : (window.first : Int) = max first s.image.base := hfirst
    have hlast : (window.last : Int) = min last (min s.image.last 0xFFFF) := hlast
    have hlength : r.length = r.last - r.first + 1 := rfl
    have hle := r.first_le_last
    have hbytes : (job.cpu.lines s r).flatMap Item.opcodes = s.image.slice r.first r.length := by
      unfold InstructionSet.lines
      rcases hk with hk | hk
      · rw [hk]
        exact InstructionSet.byteLines_opcodes
      · rw [hk]
        exact InstructionSet.wordLines_opcodes
    have hend : (r.first : Int) + r.length = r.last + 1 := by omega
    rw [Image.slice_eq_extract (by omega) (by omega), hend] at hbytes
    refine ⟨job.cpu.lines s r, listing_data job ext state hr hk, hbytes, ?_, ?_⟩
    · intro hk
      rw [InstructionSet.lines, hk]
      exact hsound.byteLines_rows happart
    · intro hk
      rw [InstructionSet.lines, hk]
      exact ⟨_, _, InstructionSet.wordLines_eq, hsound.wordLines_rows happart⟩

/-- Eleven bytes of words in decimal, shown at addresses that start anew behind the first line. -/
theorem run_lists_data_odd_words :
    let s : Setting :=
      { image := { bytes := #[1, 2, 0, 4, 5, 6, 255, 255, 9, 10, 11], base := 0x100 }
        options := { decimal := true }
        addressOffset := 0xFEF8 }
    let words : Region := .span 0x100 0x10A .words
    let job : Job := ⟨Processor.z80.instructionSet, .ofList [words], s⟩
    ∃ o lines odd, (job.run .absent () 0 0xFFFF).output = some o ∧
      o.lines.map (fun item => (item.address, item.opcodes)) =
        [(0xFFF8, [1, 2, 0, 4, 5, 6, 255, 255]), (0, [9, 10]), (2, [11])] ∧
      o.lines.map Item.text =
        [".defw 513, 1024, 1541, 65535", ".defw 2569", ".defb 011"].map Text.ofString ∧
      lines ++ odd <:+: o.lines ∧
      InstructionSet.WordRows Processor.z80.instructionSet s words lines odd := by
  intro s words job
  obtain ⟨o, window, ho, hwindow, hdata⟩ :=
    run_lists_data .z80 .absent () (.ofList [words]) s 0 0xFFFF (by decide) (by decide)
  have hshown : (job.run .absent () 0 0xFFFF).output.map (fun o =>
      (o.lines.map (fun item => (item.address, item.opcodes)), o.lines.map Item.text)) =
      some ([(0xFFF8, [1, 2, 0, 4, 5, 6, 255, 255]), (0, [9, 10]), (2, [11])],
        [".defw 513, 1024, 1541, 65535", ".defw 2569", ".defb 011"].map Text.ofString) := by
    decide +kernel
  rw [show (job.run .absent () 0 0xFFFF).output = some o from ho] at hshown
  obtain ⟨hrows, htexts⟩ := Prod.mk.inj (Option.some_inj.1 hshown)
  have hpart : words ∈ job.parts window := by
    obtain rfl : .span 0x100 0x10A .code = window :=
      Option.some_inj.1 ((show job.window 0 0xFFFF = _ by decide +kernel).symm.trans hwindow)
    decide +kernel
  obtain ⟨items, hitems, -, -, hwords⟩ := hdata words hpart (.inr rfl)
  obtain ⟨lines, odd, rfl, hlines⟩ := hwords rfl
  exact ⟨o, lines, odd, ho, hrows, htexts, hitems, hlines⟩

end Job

end RomListing

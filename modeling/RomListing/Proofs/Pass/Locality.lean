import Mathlib.Data.List.Basic
import RomListing.Proofs.Locality
import RomListing.Proofs.Pass.Coverage
import RomListing.Proofs.Pass.CrossReference

/-! # A pass looks at its window and one instruction more

The last instruction of a request starts in it at the latest, so that what lies further behind than
the longest instruction is never looked at. Two images with the same bytes up to there are listed
alike, step by step.
-/

namespace RomListing

variable {s t : Setting} {start stop : Int}

namespace InstructionSet

variable {cpu : InstructionSet} {a : Alphabet} {longest : Nat}

/-! ## Instructions -/

/-- Where the image has the bytes of the longest instruction, none is missing. -/
theorem Sound.decode_complete (h : cpu.Sound a longest) {c : Cursor} (ho : c.overflow = false)
    (hin : ∀ x, c.offset ≤ x → x < c.offset + longest → (s.image.byte? x).isSome = true) :
    (cpu.decode s c).cursor.Within (c.offset + longest) := by
  obtain ⟨n, hn, hle, hreads⟩ := h.decode_reads s c
  have hfirst := Image.byte?_isSome_iff.1 (hin c.offset (by omega) (by omega))
  have hlast := Image.byte?_isSome_iff.1 (hin (c.offset + n - 1) (by omega) (by omega))
  have hall : s.image.available c.begin.offset n = n :=
    Image.available_eq_self hfirst.1 (by show c.offset + n ≤ _; omega)
  constructor
  · rw [hreads.overflow, hall]
    simpa [Cursor.begin] using ho
  · rw [hreads.offset, hall]
    show c.offset + n ≤ _
    omega

/-! ## Data lines -/

section

variable (h : s.Agrees t start stop)
include h

theorem dataItem_agrees (cpu : InstructionSet) (place : Int) (bytes : List UInt8) (text : String) :
    cpu.dataItem t place bytes text = cpu.dataItem s place bytes text := by
  unfold dataItem InstructionSet.shownAddress
  rw [h.options, h.addressOffset]

theorem byteAt_agrees {x : Int} (hx : start ≤ x) (hx' : x < stop) :
    t.image.byteAt x = s.image.byteAt x := by
  unfold Image.byteAt
  rw [h.byte? x hx hx']

theorem byteLine_agrees (cpu : InstructionSet) {place : Int} {n : Nat} (hstart : start ≤ place)
    (hstop : place + n ≤ stop) : cpu.byteLine t place n = cpu.byteLine s place n := by
  have hbytes : (List.range n).map (fun (j : Nat) => t.image.byteAt (place + j)) =
      (List.range n).map fun (j : Nat) => s.image.byteAt (place + j) := by
    refine List.map_congr_left fun j hj => ?_
    rw [List.mem_range] at hj
    exact byteAt_agrees h (by omega) (by omega)
  unfold byteLine
  rw [hbytes, h.options]
  exact dataItem_agrees h cpu place _ _

theorem wordLine_agrees (cpu : InstructionSet) {place : Int} {n : Nat} (hstart : start ≤ place)
    (hstop : place + 2 * n ≤ stop) : cpu.wordLine t place n = cpu.wordLine s place n := by
  have hpairs : (List.range n).map (fun (k : Nat) =>
        (t.image.byteAt (place + 2 * k), t.image.byteAt (place + 2 * k + 1))) =
      (List.range n).map fun (k : Nat) =>
        (s.image.byteAt (place + 2 * k), s.image.byteAt (place + 2 * k + 1)) := by
    refine List.map_congr_left fun k hk => ?_
    rw [List.mem_range] at hk
    rw [byteAt_agrees h (x := place + 2 * k) (by omega) (by omega),
      byteAt_agrees h (x := place + 2 * k + 1) (by omega) (by omega)]
  unfold wordLine
  rw [hpairs, h.options]
  exact dataItem_agrees h cpu place _ _

variable {r : Region} (hstart : start ≤ r.first) (hstop : (r.last : Int) < stop)
include hstart hstop

theorem byteLines_agrees (cpu : InstructionSet) : cpu.byteLines t r = cpu.byteLines s r := by
  have hle := r.first_le_last
  refine List.map_congr_left fun i hi => ?_
  rw [List.mem_range] at hi
  unfold Region.length at *
  exact byteLine_agrees h cpu (by omega) (by omega)

theorem wordLines_agrees (cpu : InstructionSet) : cpu.wordLines t r = cpu.wordLines s r := by
  have hle := r.first_le_last
  have hlines : (List.range ((r.length + 6) / 8)).map (fun i =>
        cpu.wordLine t (r.first + 8 * i : Nat) (min 4 ((r.length - 8 * i) / 2))) =
      (List.range ((r.length + 6) / 8)).map fun i =>
        cpu.wordLine s (r.first + 8 * i : Nat) (min 4 ((r.length - 8 * i) / 2)) := by
    refine List.map_congr_left fun i hi => ?_
    rw [List.mem_range] at hi
    unfold Region.length at *
    exact wordLine_agrees h cpu (by omega) (by omega)
  have hlast : cpu.byteLine t r.last 1 = cpu.byteLine s r.last 1 :=
    byteLine_agrees h cpu (by omega) (by omega)
  unfold wordLines
  rw [hlines, hlast]

end

end InstructionSet

namespace Pass

variable {job : Job} {a : Alphabet} {longest : Nat}

theorem codeStep_agrees {p : Pass Unit}
    (h : job.cpu.decode t p.cursor = job.cpu.decode job.setting p.cursor) :
    p.codeStep { job with setting := t } .absent = p.codeStep job .absent := by
  show ({ p with started := p.started + 1 }.absorb _).decodeStep { job with setting := t } .absent =
    ({ p with started := p.started + 1 }.absorb _).decodeStep job .absent
  unfold decodeStep absorb
  dsimp only [Extension.absent]
  rw [h]

section

variable (h : job.cpu.Sound a longest) (hl : job.cpu.Local) {last : Int}
  (hagrees : job.setting.Agrees t start (last + longest))
  (hin : ∀ x, start ≤ x → x < last + longest → (job.setting.image.byte? x).isSome = true)
include h hl hagrees hin

theorem codeLoop_agrees {bound : Int} (hbound : bound ≤ last) (fuel : Nat) (p : Pass Unit)
    (hstart : start ≤ p.cursor.offset) :
    codeLoop { job with setting := t } .absent bound fuel p =
      codeLoop job .absent bound fuel p := by
  induction fuel generalizing p with
  | zero => rfl
  | succ fuel ih =>
      unfold codeLoop
      by_cases hgoes : p.cursor.offset ≤ bound ∧ p.cursor.overflow = false
      · have hcomplete := h.decode_complete (s := job.setting) hgoes.2
          fun x hx hx' => hin x (by omega) (by omega)
        have hdecode := h.decode_local hl (hagrees.mono (Int.le_refl _) (by omega)) hstart hcomplete
        obtain ⟨n, -, -, hreads⟩ := h.decode_reads job.setting p.cursor
        have hnext : start ≤ (p.codeStep job .absent).cursor.offset :=
          Int.le_trans hstart hreads.offset_le
        rw [if_pos hgoes, if_pos hgoes, codeStep_agrees hdecode, ih _ hnext]
      · rw [if_neg hgoes, if_neg hgoes]

theorem part_agrees {r : Region} (hstart : start ≤ r.first) (hlast : r.last ≤ last)
    (p : Pass Unit) :
    p.part { job with setting := t } .absent r = p.part job .absent r := by
  have hpos : 0 < longest := by
    obtain ⟨n, hn, hle, -⟩ := h.decode_reads job.setting p.cursor
    omega
  have hstop : (r.last : Int) < last + longest := by omega
  have hbytes := InstructionSet.byteLines_agrees hagrees hstart hstop job.cpu
  have hwords := InstructionSet.wordLines_agrees hagrees hstart hstop job.cpu
  unfold part
  cases r.kind with
  | code =>
      unfold codePart
      exact congrArg Pass.fixup (codeLoop_agrees h hl hagrees hin hlast r.length _ hstart)
  | bytes =>
      dsimp only
      rw [hbytes]
  | words =>
      dsimp only
      rw [hwords]
  | gap =>
      dsimp only
      unfold InstructionSet.gapLine
      rw [InstructionSet.dataItem_agrees hagrees, hagrees.options]
  | custom =>
      unfold customPart
      dsimp only [Extension.absent]
      rw [hbytes]

end

end Pass

namespace Job

variable {job : Job} {a : Alphabet} {longest : Nat} {first last : Int}

/-- A request that lies in both images is cut alike, at the end of the address space. -/
theorem window_agrees (job : Job) (hbase : job.setting.image.base ≤ first)
    (hlast : last ≤ job.setting.image.last) (hbase' : t.image.base ≤ first)
    (hlast' : last ≤ t.image.last) :
    Job.window { job with setting := t } first last = job.window first last := by
  have hfirst : max first t.image.base = max first job.setting.image.base := by omega
  have hend : min last (min t.image.last job.cpu.addressMask) =
      min last (min job.setting.image.last job.cpu.addressMask) := by omega
  show (if max first t.image.base > min last (min t.image.last job.cpu.addressMask) then none
    else some (Region.span (max first t.image.base)
      (min last (min t.image.last job.cpu.addressMask)) .code)) = _
  rw [hfirst, hend]
  rfl

/-- Images with the same bytes from the first address of a request up to the end of the longest
instruction at its last one are listed alike. -/
theorem run_agrees (job : Job) (h : job.cpu.Sound a longest) (hl : job.cpu.Local)
    (hpos : 0 ≤ job.setting.image.base)
    (hagrees : job.setting.Agrees t first (last + longest))
    (hin : ∀ x, first ≤ x → x < last + longest → (job.setting.image.byte? x).isSome = true) :
    (Job.run { job with setting := t } .absent () first last).output =
      (job.run .absent () first last).output := by
  obtain ⟨n, hn, hlongest, -⟩ := h.decode_reads job.setting { offset := 0 }
  have hinside : first ≤ last → (job.setting.image.base ≤ first ∧ last ≤ job.setting.image.last) ∧
      t.image.base ≤ first ∧ last ≤ t.image.last := by
    intro hle
    have hfirst := hin first (by omega) (by omega)
    have hlast := hin last (by omega) (by omega)
    have hfirst' := hagrees.byte? first (by omega) (by omega) ▸ hfirst
    have hlast' := hagrees.byte? last (by omega) (by omega) ▸ hlast
    rw [Image.byte?_isSome_iff] at hfirst hlast hfirst' hlast'
    exact ⟨⟨hfirst.1, hlast.2⟩, hfirst'.1, hlast'.2⟩
  by_cases hrange : max first job.setting.image.base ≤ min last (min job.setting.image.last 0xFFFF)
  · obtain ⟨⟨hbase, hlast⟩, hbase', hlast'⟩ := hinside (by omega)
    have hrange' : max first t.image.base ≤ min last (min t.image.last 0xFFFF) := by omega
    obtain ⟨window, hwindow, hwfirst, hwlast⟩ := window_eq_some h.mask hpos hrange
    have hwindow' : Job.window { job with setting := t } first last = some window :=
      (job.window_agrees hbase hlast hbase' hlast').trans hwindow
    have hlisting : Job.listing { job with setting := t } .absent () window =
        job.listing .absent () window := by
      refine congrArg (fun p : Pass Unit => p.output.fixup) (List.foldl_ext _ _ _ fun p r hr => ?_)
      have hbounds := part_bounds hr
      exact Pass.part_agrees h hl hagrees hin (by omega) (by omega) p
    rw [run_output, run_output, bytes_nonempty job hrange,
      bytes_nonempty { job with setting := t } hrange', hwindow, hwindow']
    exact congrArg some hlisting
  · have hrange' : ¬max first t.image.base ≤ min last (min t.image.last 0xFFFF) := by
      intro hrange'
      obtain ⟨⟨hbase, hlast⟩, -⟩ := hinside (by omega)
      omega
    rw [run_output_none job h.mask .absent () hrange,
      run_output_none { job with setting := t } h.mask .absent () hrange']

end Job

/-- Decoding is local. An instruction of which no byte is missing is the same, with the labels that
it uses, in every image that has its bytes where this one has them. A pass without an extension
gives the same output for every image that agrees with this one from the first address of the
request up to the end of the longest instruction at its last one. -/
theorem Processor.decodes_locally (q : Processor) (s : Setting) (m : Image) :
    let t : Setting := { s with image := m }
    (∀ c : Cursor,
      let d := q.instructionSet.decode s c
      d.cursor.overflow = false →
      (∀ x, c.offset ≤ x → x < c.offset + d.item.opcodes.length →
        m.byte? x = s.image.byte? x) →
      q.instructionSet.decode t c = d) ∧
    ∀ (map : MemoryMap) (first last : Int), 0 ≤ s.image.base →
      (∀ x, first ≤ x → x < last + q.longest →
        (s.image.byte? x).isSome = true ∧ m.byte? x = s.image.byte? x) →
      ((⟨q.instructionSet, map, t⟩ : Job).run .absent () first last).output =
        ((⟨q.instructionSet, map, s⟩ : Job).run .absent () first last).output := by
  intro t
  constructor
  · intro c d hcomplete hbytes
    have hend := q.sound.decode_offset s c
    exact q.sound.decode_local q.isLocal ⟨rfl, rfl, hbytes⟩ (Int.le_refl _)
      ⟨hcomplete, Int.le_of_eq hend⟩
  · intro map first last hpos hsame
    exact Job.run_agrees ⟨q.instructionSet, map, s⟩ q.sound q.isLocal hpos
      ⟨rfl, rfl, fun x hx hx' => (hsame x hx hx').2⟩ fun x hx hx' => (hsame x hx hx').1

/-- A jump between bytes that differ, one address further into its image. -/
theorem Processor.decodes_locally_jump :
    let s : Setting := { image := { bytes := #[0xC9, 0xC3, 0x34, 0x12, 0x3E, 0x07], base := 0xFF } }
    let m : Image := { bytes := #[0, 0, 0xC3, 0x34, 0x12, 0x3E, 0x00], base := 0xFE }
    let map : MemoryMap := .ofList [.span 0 0xFFFF .code]
    let t : Setting := { s with image := m }
    Processor.z80.instructionSet.decode t { offset := 0x100 } =
        Processor.z80.instructionSet.decode s { offset := 0x100 } ∧
      ((⟨Processor.z80.instructionSet, map, t⟩ : Job).run .absent () 0x100 0x100).output =
        ((⟨Processor.z80.instructionSet, map, s⟩ : Job).run .absent () 0x100 0x100).output ∧
      (Processor.z80.instructionSet.decode s { offset := 0x100 }).item.text =
        Text.ofString "jp L1234" := by
  intro s m map t
  have hsame : ∀ x : Int, 0x100 ≤ x → x < 0x104 →
      (s.image.byte? x).isSome = true ∧ m.byte? x = s.image.byte? x := by
    intro x hx hx'
    obtain rfl | rfl | rfl | rfl : x = 0x100 ∨ x = 0x101 ∨ x = 0x102 ∨ x = 0x103 := by omega
    all_goals decide
  have hlocal := Processor.decodes_locally .z80 s m
  have hlength : (Processor.z80.instructionSet.decode s { offset := 0x100 }).item.opcodes.length =
      3 := by decide +kernel
  refine ⟨hlocal.1 { offset := 0x100 } (by decide +kernel) fun x hx hx' => ?_,
    hlocal.2 map 0x100 0x100 (by decide) hsame, by decide +kernel⟩
  rw [hlength] at hx'
  exact (hsame x hx (by simp only at hx'; omega)).2

end RomListing

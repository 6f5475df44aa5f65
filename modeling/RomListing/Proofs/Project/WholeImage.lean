import RomListing.Proofs.Pass.Coverage
import RomListing.Proofs.Project.Remarks

/-! # The region that stands for the whole image

A project without regions reads its image as one code region, from the base to the last byte.
The ends of a region are wrapped and put in order, so that an image that goes on behind the
address space gets a region that starts before the base and stops short. What is listed then
ends with that region, or with the last instruction in it.
-/

namespace RomListing

/-- Where the items start, and how many bytes they have. -/
def Output.extents (offset : Int) (o : Output) : List (Int × Nat) :=
  o.items.toList.map fun i => (wrap (i.address - offset), i.opcodes.length)

def CoversRange (extents : List (Int × Nat)) (low high : Int) : Prop :=
  ∀ x, low ≤ x → x ≤ high → ∃ e ∈ extents, e.1 ≤ x ∧ x < e.1 + e.2

/-- How far the listings of the images with `size` bytes go. Of one image the range from `low`
to `high` is covered exactly if it ends at `reach` or before it, or if an item that starts there
goes on to its end. Of all these images it is covered exactly if it ends at `reach` or before
it. -/
structure ListsUpTo (list : Array UInt8 → Option Output) (offset : Int) (size : Nat)
    (low high reach : Int) : Prop where
  each : ∀ bytes : Array UInt8, bytes.size = size → ∃ o, list bytes = some o ∧
    (CoversRange (o.extents offset) low high ↔
      high ≤ reach ∨ ∃ e ∈ o.extents offset, e.1 ≤ reach ∧ high < e.1 + e.2)
  all : (∀ bytes : Array UInt8, bytes.size = size → ∃ o, list bytes = some o ∧
    CoversRange (o.extents offset) low high) ↔ high ≤ reach

theorem Output.mem_extents {s : Setting} {o : Output} {e : Int × Nat} :
    e ∈ o.extents s.addressOffset ↔ ∃ i ∈ o.lines, s.place i = e.1 ∧ i.opcodes.length = e.2 := by
  obtain ⟨place, length⟩ := e
  simp [extents, lines, Setting.place]

theorem Image.byte?_zeros {size : Nat} {base x : Int} (hx : base ≤ x) (hlt : x < base + size) :
    Image.byte? ⟨Array.replicate size 0, base⟩ x = some 0 := by
  show (if x < base then none else (Array.replicate size 0)[(x - base).toNat]?) = some 0
  rw [if_neg (by omega), Array.getElem?_replicate, if_pos (by omega)]

/-! ## Jobs -/

namespace Job

/-- The last address of the region that stands for the whole image. -/
def reach (m : Image) : Int := max m.base (wrap m.last)

variable {cpu : InstructionSet} {a : Alphabet} {longest : Nat} {s : Setting}

theorem mem_whole {r : Region} (hr : r ∈ (whole cpu s).map.regions)
    (hbase : 0 ≤ s.image.base) (hlt : s.image.base < 0x10000) :
    r.kind = .code ∧ (r.first : Int) ≤ s.image.base ∧ (r.last : Int) = reach s.image := by
  have hone : (whole cpu s).map.regions = [.span s.image.base s.image.last .code] := rfl
  rw [hone, List.mem_singleton] at hr
  subst hr
  have hwrap := wrap_of_lt hbase hlt
  have hpos := wrap_nonneg s.image.last
  refine ⟨rfl, ?_, ?_⟩
  · simp only [Region.span, hwrap]
    omega
  · simp only [Region.span, hwrap, reach]
    omega

/-- The items of the whole image are the instructions at addresses up to its reach. -/
theorem whole_instruction {window : Region} (hw : (whole cpu s).Fits window)
    (h : cpu.Sound a longest) (hlt : s.image.base < 0x10000) {i : Item}
    (hi : i ∈ (whole cpu s).lines window) :
    ∃ x : Nat, s.place i = x ∧ x ∈ window ∧ x ≤ reach s.image ∧
      i = (cpu.decode s { offset := x }).item := by
  obtain ⟨p, hp, hip⟩ := List.mem_flatMap.1 hi
  obtain ⟨x, hx, hxp⟩ := hw.startsIn h hp hip
  obtain ⟨r, hr, hkind, hmem⟩ := mem_parts hp
  obtain ⟨hxr, hxw⟩ := (hmem x).1 hxp
  obtain ⟨hcode, -, hend⟩ := mem_whole hr hw.base hlt
  have hform := ((hw.tiles h hp).starts i hip).2
  rw [hx] at hform
  rw [Region.mem_def] at hxr
  exact ⟨x, hx, hxw, by omega, hform.of_code (hkind.trans hcode)⟩

/-- The addresses of the image up to the end of its region are bytes of items. -/
theorem whole_covers {window : Region} (hw : (whole cpu s).Fits window) (h : cpu.Sound a longest)
    (hlt : s.image.base < 0x10000) {x : Nat} (hx : x ∈ window) (hreach : x ≤ reach s.image) :
    ∃ i ∈ (whole cpu s).lines window, s.place i ≤ x ∧ x < s.place i + i.opcodes.length := by
  obtain ⟨r, hr⟩ : ∃ r, r ∈ (whole cpu s).map.regions := ⟨_, List.mem_singleton.2 rfl⟩
  obtain ⟨-, hfirst, hlast⟩ := mem_whole hr hw.base hlt
  have hstart : s.image.base ≤ window.first := hw.first
  have hxr : x ∈ r := by
    rw [Region.mem_def] at hx ⊢
    omega
  obtain ⟨p, hp, hxp⟩ := exists_part hr hxr hx
  obtain ⟨i, hi, -, hcover⟩ := hw.exists_covers h hp hxp
  rcases hcover with hcover | ⟨g, hg, hgap, -⟩
  · exact ⟨i, hi, hcover⟩
  · obtain ⟨r', hr', hkind, -⟩ := mem_parts hg
    rw [hkind, (mem_whole hr' hw.base hlt).1] at hgap
    cases hgap

/-- A range is listed in full exactly if it ends in the region of the image, or if an
instruction that starts there goes on to the end of the range. -/
theorem whole_covers_iff (h : cpu.Sound a longest) (first last : Int)
    (hbase : 0 ≤ s.image.base)
    (hrange : max first s.image.base ≤ min last (min s.image.last 0xFFFF)) :
    let high := min last (min s.image.last 0xFFFF)
    ∃ o, ((whole cpu s).run .absent () first last).output = some o ∧
      (CoversRange (o.extents s.addressOffset) (max first s.image.base) high ↔
        high ≤ reach s.image ∨
          ∃ e ∈ o.extents s.addressOffset, e.1 ≤ reach s.image ∧ high < e.1 + e.2) := by
  intro high
  obtain ⟨o, window, ho, -, hw, hfirst, hlast, hlines⟩ :=
    run_lines (whole cpu s) h first last hbase hrange
  have hlow : (window.first : Int) = max first s.image.base := hfirst
  have hhigh : (window.last : Int) = high := hlast
  have hlt : s.image.base < 0x10000 := by omega
  refine ⟨o, ho, ?_, ?_⟩
  · intro hcover
    obtain ⟨e, he, -, hgt⟩ := hcover high hrange (Int.le_refl _)
    obtain ⟨i, hi, hplace, -⟩ := Output.mem_extents.1 he
    obtain ⟨y, hy, -, hreach, -⟩ := whole_instruction hw h hlt (hlines ▸ hi)
    exact .inr ⟨e, he, by omega, hgt⟩
  · intro hcond x hx hx'
    by_cases hreach : x ≤ reach s.image
    · have hnat : (x.toNat : Int) = x := Int.toNat_of_nonneg (by clear hcond; omega)
      have hmem : x.toNat ∈ window := by
        rw [Region.mem_def]
        clear hcond
        omega
      obtain ⟨i, hi, hcover⟩ := whole_covers hw h hlt hmem (hnat ▸ hreach)
      rw [hnat] at hcover
      exact ⟨(s.place i, i.opcodes.length),
        Output.mem_extents.2 ⟨i, hlines ▸ hi, rfl, rfl⟩, hcover⟩
    · rcases hcond with hle | ⟨e, he, hstart, hend⟩
      · omega
      · exact ⟨e, he, by omega, by omega⟩

/-- Of an image of zeros nothing behind the region is listed: every item is one byte long. -/
theorem whole_zeros_covers (q : Processor) (size : Nat) {base offset first last : Int}
    {options : Options} (hbase : 0 ≤ base)
    (hrange : max first base ≤ min last (min (base + size - 1) 0xFFFF)) {o : Output}
    (ho : ((whole q.instructionSet ⟨⟨Array.replicate size 0, base⟩, offset, options⟩).run
      .absent () first last).output = some o)
    (hcover : CoversRange (o.extents offset) (max first base)
      (min last (min (base + size - 1) 0xFFFF))) :
    min last (min (base + size - 1) 0xFFFF) ≤ max base (wrap (base + size - 1)) := by
  let s : Setting := ⟨⟨Array.replicate size 0, base⟩, offset, options⟩
  have hlast : s.image.last = base + size - 1 := by simp [s, Image.last]
  have hreach : reach s.image = max base (wrap (base + size - 1)) := by rw [reach, hlast]
  obtain ⟨o', window, ho', -, hw, -, -, hlines⟩ :=
    run_lines (whole q.instructionSet s) q.sound first last hbase
      (by rw [show (whole q.instructionSet s).setting = s from rfl, hlast]; exact hrange)
  rw [show ((whole q.instructionSet s).run .absent () first last).output = some o from ho,
    Option.some_inj] at ho'
  subst ho'
  obtain ⟨e, he, hle, hgt⟩ := hcover _ hrange (Int.le_refl _)
  obtain ⟨i, hi, hplace, hlength⟩ := (Output.mem_extents (s := s)).1 he
  rw [hlines] at hi
  have hbound : s.image.base < 0x10000 := by
    show base < _
    omega
  obtain ⟨x, hx, hxw, hstart, hi⟩ := whole_instruction hw q.sound hbound hi
  have hfirst : base ≤ window.first := hw.first
  have hfinal : (window.last : Int) ≤ base + size - 1 := hlast ▸ hw.last
  rw [Region.mem_def] at hxw
  have hone : i.opcodes.length = 1 := by
    rw [hi]
    exact q.decode_zero (Image.byte?_zeros (by omega) (by omega))
  omega

theorem whole_lists_up_to (q : Processor) (size : Nat) {base : Int} (first last offset : Int)
    (options : Options) (hbase : 0 ≤ base)
    (hrange : max first base ≤ min last (min (base + size - 1) 0xFFFF)) :
    ListsUpTo (fun bytes => ((whole q.instructionSet ⟨⟨bytes, base⟩, offset, options⟩).run
        .absent () first last).output) offset size (max first base)
      (min last (min (base + size - 1) 0xFFFF)) (max base (wrap (base + size - 1))) := by
  have each (bytes : Array UInt8) (hsize : bytes.size = size) :=
    whole_covers_iff (s := ⟨⟨bytes, base⟩, offset, options⟩) q.sound first last hbase
      (by rw [← hsize] at hrange; exact hrange)
  constructor
  · intro bytes hsize
    subst hsize
    exact each bytes rfl
  · constructor
    · intro hall
      obtain ⟨o, ho, hcover⟩ := hall (Array.replicate size 0) Array.size_replicate
      exact whole_zeros_covers q size hbase hrange ho hcover
    · intro hreach bytes hsize
      obtain ⟨o, ho, hiff⟩ := each bytes hsize
      subst hsize
      exact ⟨o, ho, hiff.2 (.inl hreach)⟩

end Job

/-! ## Projects -/

theorem ListsUpTo.congr {list list' : Array UInt8 → Option Output} {offset : Int} {size : Nat}
    {low high reach : Int} (h : ListsUpTo list offset size low high reach)
    {f : Output → Output} (hf : ∀ o, (f o).extents offset = o.extents offset)
    (hlist : ∀ bytes, bytes.size = size → list' bytes = (list bytes).map f) :
    ListsUpTo list' offset size low high reach := by
  have exists_iff (P : List (Int × Nat) → Prop) (bytes : Array UInt8) (hsize : bytes.size = size) :
      (∃ o, list' bytes = some o ∧ P (o.extents offset)) ↔
        ∃ o, list bytes = some o ∧ P (o.extents offset) := by
    rw [hlist bytes hsize]
    cases list bytes with
    | none => simp
    | some o => simp [hf o]
  constructor
  · intro bytes hsize
    exact (exists_iff (fun es => CoversRange es low high ↔
      high ≤ reach ∨ ∃ e ∈ es, e.1 ≤ reach ∧ high < e.1 + e.2) bytes hsize).2 (h.each bytes hsize)
  · rw [← h.all]
    exact forall_congr' fun bytes => forall_congr' fun hsize =>
      exists_iff (CoversRange · low high) bytes hsize

namespace Project

variable {p : Project} {bytes : Array UInt8} {cpu : InstructionSet}

/-- Remarks move no item. -/
theorem extents_applyComments (offset : Int) (o : Output) :
    (p.applyComments o).extents offset = o.extents offset :=
  p.map_applyComments (fun _ _ => rfl) o

theorem job_of_no_regions (hr : p.regions = []) (hsize : 0 < bytes.size) :
    p.job cpu bytes = Job.whole cpu ⟨⟨bytes, p.base⟩, p.addressOffset, p.options⟩ := by
  have hmax : max bytes.size 1 = bytes.size := by omega
  simp only [job, Job.whole, map, hr, List.isEmpty_nil, if_true, hmax, Image.last]

def listing? (p : Project) (bytes : Array UInt8) : Option Output :=
  (p.run bytes).toOption.bind Result.output

theorem listing?_of_setup {machine : Option Machine} (hq : p.processor = .ok cpu)
    (hm : p.namedMachine = .ok machine) : p.listing? bytes =
      (Machine.run machine (p.job cpu bytes) p.first p.last).1.map p.applyComments := by
  unfold listing? run
  rw [hq, hm]
  rfl

theorem listing?_without_machine (hq : p.processor = .ok cpu) (hm : p.namedMachine = .ok none) :
    p.listing? bytes =
      ((p.job cpu bytes).run .absent () p.first p.last).output.map p.applyComments :=
  listing?_of_setup hq hm

/-- How far a project without regions and without a machine lists its images, and likewise the
listing of a whole image from an address on: up to the greater of the base and the wrapped
address of the last byte. That is the end of every range unless the image goes on behind the
address space. -/
theorem run_without_regions_lists_up_to (q : Processor) (p : Project) (size : Nat)
    (hq : p.processor = .ok q.instructionSet) (hm : p.namedMachine = .ok none)
    (hr : p.regions = []) (hbase : 0 ≤ p.base)
    (hrange : max p.first p.base ≤ min p.last (min (p.base + size - 1) 0xFFFF)) :
    let final := min (p.base + size - 1) 0xFFFF
    let reach := max p.base (wrap (p.base + size - 1))
    ListsUpTo p.listing? p.addressOffset size (max p.first p.base) (min p.last final) reach ∧
      ListsUpTo (fun bytes => ((Job.whole q.instructionSet
          ⟨⟨bytes, p.base⟩, p.addressOffset, p.options⟩).run .absent () p.first
            (p.base + size - 1)).output)
        p.addressOffset size (max p.first p.base) final reach ∧
      (p.base + size ≤ 0x10000 → final ≤ reach) := by
  intro final reach
  refine ⟨?_, ?_, ?_⟩
  · have hwhole := Job.whole_lists_up_to q size p.first p.last p.addressOffset p.options
      hbase hrange
    refine hwhole.congr (f := p.applyComments) (p.extents_applyComments p.addressOffset) ?_
    intro bytes hsize
    rw [listing?_without_machine hq hm, job_of_no_regions hr (by omega)]
  · have hwhole := Job.whole_lists_up_to q size p.first (p.base + size - 1) p.addressOffset
      p.options hbase (by omega)
    have hfinal : min (p.base + size - 1) (min (p.base + size - 1) 0xFFFF) = final := by omega
    rwa [hfinal] at hwhole
  · intro hfits
    have hwrap := wrap_of_lt (a := p.base + size - 1) (by omega) (by omega)
    omega

/-- Three bytes at the last address but one of the address space: the last address lies in
the requested range and is not listed. -/
theorem run_without_regions_misses_final_address :
    let p : Project := { base := 0xFFFE }
    let bytes : Array UInt8 := #[0, 0, 0]
    ∃ o, p.listing? bytes = some o ∧ o.extents p.addressOffset = [(0xFFFE, 1)] ∧
      max p.first p.base ≤ 0xFFFF ∧ 0xFFFF ≤ min p.last (min (p.base + bytes.size - 1) 0xFFFF) ∧
      ¬CoversRange (o.extents p.addressOffset) (max p.first p.base)
        (min p.last (min (p.base + bytes.size - 1) 0xFFFF)) := by
  intro p bytes
  have hextents : (p.listing? bytes).map (Output.extents p.addressOffset) = some [(0xFFFE, 1)] := by
    decide +kernel
  obtain ⟨o, ho, hone⟩ := Option.map_eq_some_iff.1 hextents
  refine ⟨o, ho, hone, by decide, by decide, ?_⟩
  intro hcover
  obtain ⟨e, he, hstart, hend⟩ := hcover 0xFFFF (by decide) (by decide)
  rw [hone, List.mem_singleton] at he
  subst he
  omega

/-- Three bytes that end with the address space are listed in full. -/
theorem run_without_regions_lists_final_bytes :
    ∃ o, Project.listing? { base := 0xFFFD } #[0x3E, 0x12, 0xC3] = some o ∧
      CoversRange (o.extents 0) 0xFFFD 0xFFFF :=
  (run_without_regions_lists_up_to .z80 { base := 0xFFFD } 3 rfl rfl rfl (by decide)
    (by decide)).1.all.2 (by decide) #[0x3E, 0x12, 0xC3] rfl

end Project

end RomListing

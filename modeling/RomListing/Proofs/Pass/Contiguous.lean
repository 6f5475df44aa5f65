import RomListing.Proofs.Pass.Coverage

/-! # Instructions side by side

The instructions of a code part list the bytes of the image from the start of the part on, none
left out and none twice, and only the last of them reaches behind the end of the part.
-/

namespace RomListing

def byteCount (items : List Item) : Nat := (items.flatMap Item.opcodes).length

@[simp] theorem byteCount_nil : byteCount [] = 0 := rfl

@[simp] theorem byteCount_cons (item : Item) (items : List Item) :
    byteCount (item :: items) = item.opcodes.length + byteCount items := by
  simp [byteCount]

@[simp] theorem byteCount_append (items more : List Item) :
    byteCount (items ++ more) = byteCount items + byteCount more := by
  simp [byteCount]

/-- Items that list the bytes of the image from `first` on, one behind the other, where each but
the last ends at `last` or before, and the last one ends behind it. -/
structure Contiguous (s : Setting) (longest : Nat) (first last : Int) (items : List Item) :
    Prop where
  starts : items.head?.map Item.address = some (s.shownAddress first)
  follows : items.IsChain fun item next =>
    next.address = wrap (item.address + item.opcodes.length)
  sized : ∀ item ∈ items, 1 ≤ item.opcodes.length ∧ item.opcodes.length ≤ longest
  bytes : items.flatMap Item.opcodes = s.image.slice first (byteCount items)
  inside : first + byteCount items ≤ s.image.last + 1
  stops : ∀ before item after, items = before ++ item :: after →
    (first + byteCount (before ++ [item]) ≤ last ↔ after ≠ [])

structure LiesAt (s : Setting) (longest : Nat) (place : Int) (item : Item) : Prop where
  address : item.address = s.shownAddress place
  sized : 1 ≤ item.opcodes.length ∧ item.opcodes.length ≤ longest
  bytes : item.opcodes = s.image.slice place item.opcodes.length
  inside : place + item.opcodes.length ≤ s.image.last + 1

variable {s : Setting} {longest : Nat} {place last : Int} {item : Item} {items : List Item}

namespace LiesAt

/-- The next place shows the next address, also where addresses start anew. -/
theorem next_address (h : LiesAt s longest place item) :
    s.shownAddress (place + item.opcodes.length) = wrap (item.address + item.opcodes.length) := by
  rw [h.address, Setting.shownAddress, Setting.shownAddress, wrap_wrap_add]
  congr 1
  omega

theorem contiguous_last (h : LiesAt s longest place item)
    (hreach : last < place + item.opcodes.length) : Contiguous s longest place last [item] where
  starts := congrArg some h.address
  follows := .singleton item
  sized := by simpa using h.sized
  bytes := by simpa using h.bytes
  inside := by simpa using h.inside
  stops := by
    intro before i after hsplit
    obtain ⟨rfl, rfl, rfl⟩ : before = [] ∧ i = item ∧ after = [] := by
      cases before <;> simp_all
    simpa using hreach

theorem contiguous_cons (h : LiesAt s longest place item)
    (hreach : place + item.opcodes.length ≤ last)
    (hrest : Contiguous s longest (place + item.opcodes.length) last items) :
    Contiguous s longest place last (item :: items) where
  starts := congrArg some h.address
  follows := by
    cases items with
    | nil => exact .singleton item
    | cons next rest =>
        have hnext : next.address = wrap (item.address + item.opcodes.length) :=
          (Option.some_inj.1 hrest.starts).trans h.next_address
        exact .cons_cons hnext hrest.follows
  sized := List.forall_mem_cons.2 ⟨h.sized, hrest.sized⟩
  bytes := by
    rw [List.flatMap_cons, hrest.bytes, byteCount_cons, Image.slice_add, ← h.bytes]
  inside := by
    have hinside := hrest.inside
    rw [byteCount_cons]
    omega
  stops := by
    intro before i after hsplit
    cases before with
    | nil =>
        obtain ⟨rfl, rfl⟩ := List.cons_eq_cons.1 hsplit
        have hsome : items ≠ [] := by
          rintro rfl
          simpa using hrest.starts
        simpa [hsome] using hreach
    | cons first before =>
        obtain ⟨rfl, hitems⟩ := List.cons_eq_cons.1 hsplit
        have hstops := hrest.stops before i after hitems
        rw [List.cons_append, byteCount_cons, ← hstops]
        omega

end LiesAt

namespace InstructionSet

variable {cpu : InstructionSet} {a : Alphabet}

theorem Sound.decode_liesAt (h : cpu.Sound a longest) (hbase : s.image.base ≤ place)
    (hlast : place ≤ s.image.last) :
    LiesAt s longest place (cpu.decode s { offset := place }).item := by
  obtain ⟨hpos, hlong, hoffset, -⟩ := h.decode_within (s := s) hbase hlast
  obtain ⟨n, -, -, hreads⟩ := h.decode_reads s { offset := place }
  have hbytes : (cpu.decode s { offset := place }).item.opcodes =
      s.image.slice place (s.image.available place n) := hreads.taken
  have hlength := congrArg List.length hbytes
  rw [Image.slice_length] at hlength
  have havailable := Image.available_eq_min hbase n
  exact ⟨(h.decode_frame s _).1, ⟨hpos, hlong⟩, hlength ▸ hbytes, by omega⟩

/-- The invariant of a walk: from the current place on instructions lie side by side up to
behind `last`. -/
theorem Sound.walk_contiguous (h : cpu.Sound a longest) (hlast : last ≤ s.image.last)
    (fuel : Nat) (hbase : s.image.base ≤ place) (hle : place ≤ last)
    (hfuel : last < place + fuel) : Contiguous s longest place last (cpu.walk s last fuel place) := by
  induction fuel generalizing place with
  | zero => omega
  | succ fuel ih =>
      have hin : place ≤ s.image.last := Int.le_trans hle hlast
      have hlies := h.decode_liesAt hbase hin
      obtain ⟨hpos, -, hoffset, hover⟩ := h.decode_within (s := s) hbase hin
      rw [walk_succ hle]
      dsimp only
      generalize cpu.decode s { offset := place } = d at *
      by_cases hreach : last < d.cursor.offset
      · rw [walk_of_lt hreach, ite_self]
        exact hlies.contiguous_last (by omega)
      · -- where a byte was missing the image ends, and the part with it
        rw [if_neg fun ho => hreach (by have := hover ho; omega), hoffset]
        exact hlies.contiguous_cons (by omega) (ih (by omega) (by omega) (by omega))

end InstructionSet

namespace Job

/-- A pass without an extension over a range that meets the image in the address space lists its
parts one after another. In each part of code the instructions lie side by side: each has one byte
at least and `longest` bytes at most, its bytes are the next ones of the image and its address is
the next one, and it is the last one exactly if it reaches behind the end of the part. -/
theorem run_lists_contiguous (q : Processor) (map : MemoryMap) (s : Setting) (first last : Int)
    (hbase : 0 ≤ s.image.base)
    (hrange : max first s.image.base ≤ min last (min s.image.last 0xFFFF)) :
    let job : Job := ⟨q.instructionSet, map, s⟩
    ∃ o window, (job.run .absent () first last).output = some o ∧
      job.window first last = some window ∧
      o.lines = (job.parts window).flatMap (q.instructionSet.lines s) ∧
      ∀ r ∈ job.parts window, r.kind = .code →
        Contiguous s q.longest r.first r.last (q.instructionSet.lines s r) := by
  intro job
  have hsound : job.cpu.Sound q.alphabet q.longest := q.sound
  obtain ⟨o, window, ho, hwindow, hfits, -, -, hlines⟩ :=
    job.run_lines hsound first last hbase hrange
  refine ⟨o, window, ho, hwindow, hlines, ?_⟩
  intro r hr hcode
  have hbounds := part_bounds hr
  have hle := r.first_le_last
  have hfirst : s.image.base ≤ window.first := hfits.first
  have hlast : window.last ≤ s.image.last := hfits.last
  have hlength : r.length = r.last - r.first + 1 := rfl
  rw [InstructionSet.lines, hcode]
  exact q.sound.walk_contiguous (by omega) r.length (by omega) (by omega) (by omega)

/-- A `jr` behind an index prefix, with the addresses starting anew inside of it, and a last
instruction that the image cuts off. -/
theorem run_lists_contiguous_cut_load :
    let s : Setting := { image := { bytes := #[0xDD, 0x18, 0x05, 0x00, 0x21, 0x34] },
                         addressOffset := 0xFFFE }
    let job : Job := ⟨Processor.z80.instructionSet, .ofList [.span 0 5 .code], s⟩
    ∃ o, (job.run .absent () 0 0xFFFF).output = some o ∧
      o.lines.map Item.opcodes = [[0xDD, 0x18, 0x05], [0x00], [0x21, 0x34]] ∧
      o.lines.map Item.address = [0xFFFE, 1, 2] ∧ Contiguous s 4 0 5 o.lines := by
  intro s job
  obtain ⟨o, window, ho, hwindow, hlines, hcode⟩ :=
    run_lists_contiguous .z80 (.ofList [.span 0 5 .code]) s 0 0xFFFF (by decide) (by decide)
  have hshown : (job.run .absent () 0 0xFFFF).output.map (fun o =>
      (o.lines.map Item.opcodes, o.lines.map Item.address)) =
      some ([[0xDD, 0x18, 0x05], [0x00], [0x21, 0x34]], [0xFFFE, 1, 2]) := by decide +kernel
  rw [show (job.run .absent () 0 0xFFFF).output = some o from ho] at hshown
  obtain ⟨hopcodes, haddresses⟩ := Prod.mk.inj (Option.some_inj.1 hshown)
  have hpart : job.parts window = [.span 0 5 .code] := by
    obtain rfl : .span 0 5 .code = window :=
      Option.some_inj.1 ((show job.window 0 0xFFFF = _ by decide +kernel).symm.trans hwindow)
    decide +kernel
  rw [hpart] at hlines hcode
  rw [List.flatMap_singleton] at hlines
  refine ⟨o, ho, hopcodes, haddresses, ?_⟩
  rw [hlines]
  exact hcode (.span 0 5 .code) List.mem_cons_self rfl

end Job

end RomListing

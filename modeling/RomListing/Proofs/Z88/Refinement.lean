import RomListing.Proofs.Machine.Rows
import RomListing.Proofs.Z88.Grammar

/-! # The Z88 extension follows the grammar

The extension reads calls and texts through a cursor that stops at the end of the image. A pass that
stands at a place lists its phrase in one step and then stands behind it, or else the image has
ended, and with it the part.
-/

namespace RomListing.Z88

open Pass (Lists Advances lists_of_lt advances_codeStep)

/-! ## Cursors -/

/-- A cursor that has read `n` bytes from the place on, as far as the image has them. -/
structure Stops (s : Setting) (place : Int) (n : Nat) (c : Cursor) : Prop where
  offset : c.offset = min (place + n) (s.image.last + 1)
  overflow : c.overflow = true → s.image.last < c.offset

variable {s : Setting} {c d : Cursor} {n : Nat}

theorem Stops.of_reads (h : c.Reads s n d) (hbase : s.image.base ≤ c.offset)
    (hlast : c.offset ≤ s.image.last) (ho : c.overflow = false) : Stops s c.offset n d := by
  have hoffset := h.offset
  have havailable := Image.available_eq_min hbase n
  exact ⟨by omega, h.last_lt hbase ho⟩

/-- Reading on up to a zero gives the stored text. -/
theorem readString_storedText (fuel : Nat) (hbase : s.image.base ≤ c.offset)
    (hlast : c.offset ≤ s.image.last + 1) (ho : c.overflow = false)
    (hfuel : s.image.last + 1 < c.offset + fuel) :
    (readString s fuel c).1 = storedText s.image c.offset ∧
      Stops s c.offset (storedText s.image c.offset).length (readString s fuel c).2 := by
  induction fuel generalizing c with
  | zero => omega
  | succ fuel ih =>
      have hbyte : (c.fetch s).1 = s.image.byteAt c.offset := c.fetch_byte s
      have hoffset := (c.fetch_reads s).offset
      have havailable := Image.available_eq_min hbase 1
      unfold readString
      dsimp only
      rcases c.fetch_cases s ho with ⟨hover, hstays⟩ | ⟨hover, hmoves, hin⟩
      · rw [if_pos hover, storedText_of_last_lt (by omega)]
        exact ⟨rfl, by simp only [List.length_nil]; omega, by simp only; omega⟩
      · rw [if_neg (by simp [hover]), hbyte, storedText_of_le hin]
        by_cases hzero : s.image.byteAt c.offset = 0
        · rw [if_pos hzero, if_pos hzero]
          refine ⟨rfl, ?_, by simp [hover]⟩
          simp only [List.length_singleton]
          omega
        · obtain ⟨htext, hstop⟩ := ih (c := (c.fetch s).2) (by omega) (by omega) hover (by omega)
          rw [hmoves] at htext hstop
          have hend := hstop.offset
          rw [if_neg hzero, if_neg hzero, htext]
          refine ⟨rfl, ?_, hstop.overflow⟩
          simp only [List.length_cons]
          omega

/-! ## Steps -/

/-- The extension handles what stands at the cursor: it lists its phrase and stops behind it. -/
structure Handles (s : Setting) (q : Processor) (c : Cursor) (x : Step Unit) : Prop where
  takes : x.handled = true
  items : x.items = phrase s c.offset q
  stops : Stops s c.offset (byteCount (phrase s c.offset q)) x.cursor

variable {q : Processor}

/-- The bytes that calls are read from, one after another. -/
theorem fetched_bytes (hbase : s.image.base ≤ c.offset) :
    (c.fetch s).1 = s.image.byteAt c.offset ∧
      ((c.fetch s).2.fetch s).1 = s.image.byteAt (c.offset + 1) ∧
      (((c.fetch s).2.fetch s).2.fetch s).1 = s.image.byteAt (c.offset + 2) ∧
      ((((c.fetch s).2.fetch s).2.fetch s).2.fetch s).1 = s.image.byteAt (c.offset + 3) :=
  ⟨c.fetch_byte s, (c.fetch_reads s).fetch_byte hbase, (c.fetchWord_reads s).fetch_byte hbase,
    ((c.fetchWord_reads s).trans (Cursor.fetch_reads s _)).fetch_byte hbase⟩

/-- A call that is its whole phrase. -/
theorem Handles.of_call {opcodes : List UInt8} {text : String}
    (hphrase : phrase s c.offset q = [call s c.offset n text])
    (hopcodes : opcodes = (c.fetchMany s n).1) (hbase : s.image.base ≤ c.offset)
    (hlast : c.offset ≤ s.image.last) (ho : c.overflow = false) :
    Handles s q c (handled (c.fetchMany s n).2 [callItem s c opcodes text]) := by
  rw [Cursor.fetchMany_bytes hbase] at hopcodes
  refine ⟨rfl, ?_, ?_⟩
  · rw [hphrase, hopcodes]
    rfl
  · rw [hphrase, byteCount_cons, call_opcodes_length]
    exact .of_reads (c.fetchMany_reads s n) hbase hlast ho

/-- The call that a text follows. -/
theorem Handles.of_text {opcodes : List UInt8} {text : String}
    (hphrase : phrase s c.offset q = call s c.offset 2 text ::
      continuation s c.offset (storedText s.image (c.offset + 2)))
    (hopcodes : opcodes = (c.fetchMany s 2).1) (hbase : s.image.base ≤ c.offset)
    (hlast : c.offset + 2 ≤ s.image.last + 1) (ho : c.overflow = false) :
    let x := inlineString s c (c.fetchMany s 2).2
    Handles s q c (handled x.2 (callItem s c opcodes text :: x.1)) := by
  intro x
  have hreads := c.fetchMany_reads s 2
  have havailable : s.image.available c.offset 2 = 2 := Image.available_eq_self hbase hlast
  have hoffset : (c.fetchMany s 2).2.offset = c.offset + 2 := by
    rw [hreads.offset, havailable]
    rfl
  have hover : (c.fetchMany s 2).2.overflow = false := by
    rw [hreads.overflow, havailable, ho]
    rfl
  have hsize : s.image.last = s.image.base + s.image.bytes.size - 1 := rfl
  obtain ⟨htext, hstop⟩ := readString_storedText (s := s) (s.image.bytes.size + 1)
    (c := (c.fetchMany s 2).2) (by omega) (by omega) hover (by omega)
  rw [hoffset] at htext hstop
  have hitems : x.1 = continuation s c.offset (storedText s.image (c.offset + 2)) := by
    simp only [x, inlineString, continuation, htext, List.isEmpty_iff]
    split <;> rfl
  have hcursor : x.2 = (readString s (s.image.bytes.size + 1) (c.fetchMany s 2).2).2 := by
    simp only [x, inlineString]
    split <;> rfl
  have hcount : byteCount (phrase s c.offset q) =
      2 + (storedText s.image (c.offset + 2)).length := by
    rw [hphrase, byteCount_cons, call_opcodes_length, byteCount, continuation_opcodes]
  rw [Cursor.fetchMany_bytes hbase] at hopcodes
  refine ⟨rfl, ?_, ?_⟩
  · rw [hphrase, ← hitems, hopcodes]
    rfl
  · have hend := hstop.offset
    show Stops s c.offset _ x.2
    rw [hcount, hcursor]
    exact ⟨by omega, hstop.overflow⟩

section

variable (hbase : s.image.base ≤ c.offset) (hlast : c.offset ≤ s.image.last)
  (ho : c.overflow = false)
include hbase hlast ho

theorem floatCall_handles (hfirst : s.image.byteAt c.offset = 0xDF) :
    Handles s q c (floatCall s c) := by
  obtain ⟨hone, htwo, -, -⟩ := fetched_bytes hbase
  have hphrase : phrase s c.offset q = _ := if_pos hfirst
  unfold floatCall
  dsimp only
  rw [htwo]
  refine .of_call hphrase ?_ hbase hlast ho
  rw [← hfirst, ← hone, ← htwo]
  rfl

theorem systemCall_handles (hfirst : s.image.byteAt c.offset = 0xE7) :
    Handles s q c (systemCall s c) := by
  obtain ⟨hone, htwo, hthree, -⟩ := fetched_bytes hbase
  have hphrase : phrase s c.offset q = _ := (if_neg (by rw [hfirst]; decide)).trans (if_pos hfirst)
  have hwide (code : UInt8) : isWide code = true ↔ code ∈ [0x06, 0x09, 0x0C] := by
    simp [isWide, or_assoc]
  unfold systemCall
  dsimp only
  rw [htwo]
  by_cases hcode : s.image.byteAt (c.offset + 1) ∈ [0x06, 0x09, 0x0C]
  · rw [if_pos ((hwide _).2 hcode), hthree]
    rw [if_pos hcode] at hphrase
    refine .of_call hphrase ?_ hbase hlast ho
    rw [← hfirst, ← hone, ← htwo, ← hthree]
    rfl
  rw [if_neg fun h => hcode ((hwide _).1 h)]
  rw [if_neg hcode] at hphrase
  by_cases htext : s.image.byteAt (c.offset + 1) = 0x93
  · rw [if_pos htext]
    rw [if_pos htext] at hphrase
    refine .of_text hphrase ?_ hbase (Int.not_lt.1 fun hmissing => ?_) ho
    · rw [← hfirst, ← hone, ← htwo]
      rfl
    · -- the code would be read as 0 if it were missing
      rw [Image.byteAt_of_last_lt (by omega)] at htext
      cases htext
  · rw [if_neg htext]
    rw [if_neg htext] at hphrase
    refine .of_call hphrase ?_ hbase hlast ho
    rw [← hfirst, ← hone, ← htwo]
    rfl

theorem farCall_handles (hfirst : s.image.byteAt c.offset = 0xEF) :
    Handles s q c (farCall s c) := by
  obtain ⟨hone, htwo, hthree, hfour⟩ := fetched_bytes hbase
  have hphrase : phrase s c.offset q = _ :=
    (if_neg (by rw [hfirst]; decide)).trans
      ((if_neg (by rw [hfirst]; decide)).trans (if_pos hfirst))
  unfold farCall
  dsimp only
  rw [htwo, hthree, hfour]
  refine .of_call hphrase ?_ hbase hlast ho
  rw [← hfirst, ← hone, ← htwo, ← hthree, ← hfour]
  rfl

theorem memoryBinding_handles (hfirst : s.image.byteAt c.offset = 0xF7) :
    Handles s q c (memoryBinding s c) := by
  have hone : (c.fetch s).1 = s.image.byteAt c.offset := c.fetch_byte s
  have hphrase : phrase s c.offset q = _ :=
    (if_neg (by rw [hfirst]; decide)).trans ((if_neg (by rw [hfirst]; decide)).trans
      ((if_neg (by rw [hfirst]; decide)).trans (if_pos hfirst)))
  refine .of_call (n := 1) hphrase ?_ hbase hlast ho
  rw [← hfirst, ← hone]
  rfl

/-- The extension handles the calls, and leaves every other instruction to the processor. -/
theorem before_phrase (q : Processor) : Handles s q c (before s c ()) ∨
    before s c () = { handled := false, state := (), cursor := c } ∧
      phrase s c.offset q = [(q.instructionSet.decode s { offset := c.offset }).item] := by
  have hbeyond : (c.peek s 0).beyond = false := by
    simpa [Cursor.peek] using Image.byte?_isSome_iff.2 ⟨hbase, hlast⟩
  have hvalue : (c.peek s 0).value = s.image.byteAt c.offset := by simp [Cursor.peek]
  simp only [before, hbeyond, hvalue, Bool.false_eq_true, if_false]
  by_cases hfloat : s.image.byteAt c.offset = 0xDF
  · rw [if_pos hfloat]
    exact .inl (floatCall_handles hbase hlast ho hfloat)
  by_cases hsystem : s.image.byteAt c.offset = 0xE7
  · rw [if_neg hfloat, if_pos hsystem]
    exact .inl (systemCall_handles hbase hlast ho hsystem)
  by_cases hfar : s.image.byteAt c.offset = 0xEF
  · rw [if_neg hfloat, if_neg hsystem, if_pos hfar]
    exact .inl (farCall_handles hbase hlast ho hfar)
  by_cases hbinding : s.image.byteAt c.offset = 0xF7
  · rw [if_neg hfloat, if_neg hsystem, if_neg hfar, if_pos hbinding]
    exact .inl (memoryBinding_handles hbase hlast ho hbinding)
  · rw [if_neg hfloat, if_neg hsystem, if_neg hfar, if_neg hbinding]
    exact .inr ⟨rfl, by simp only [phrase, hfloat, hsystem, hfar, hbinding, if_false]⟩

end

/-! ## Passes at a place -/

/-- The pass stands at the place, or both are behind the end of the part. -/
structure Stands (s : Setting) (last : Int) (p : Pass Unit) (place : Int) : Prop where
  base : s.image.base ≤ place
  inside : place ≤ last → p.cursor.offset = place ∧ p.cursor.overflow = false
  behind : last < place → last < p.cursor.offset

variable {job : Job} {last place : Int} {p : Pass Unit}

theorem Stops.stands (h : Stops s place n p.cursor) (hfit : last ≤ s.image.last)
    (hbase : s.image.base ≤ place) : Stands s last p (place + n) := by
  have hoffset := h.offset
  refine ⟨by omega, fun hle => ⟨by omega, ?_⟩, fun hlt => by omega⟩
  cases hover : p.cursor.overflow with
  | false => rfl
  | true =>
      have := h.overflow hover
      omega

theorem phrase_plain (q : Processor) (s : Setting) (place : Int) :
    ∀ item ∈ phrase s place q, item.hasLabel = false := by
  have hdecode := (q.sound.decode_frame s { offset := place }).2
  have htext (bytes : List UInt8) : ∀ item ∈ continuation s place bytes, item.hasLabel = false := by
    unfold continuation
    split <;> simp
  unfold phrase
  dsimp only
  split
  · simp [call]
  split
  · split
    · simp [call]
    · refine List.forall_mem_cons.2 ⟨rfl, ?_⟩
      split
      · exact htext _
      · simp
  split
  · simp [call]
  split
  · simp [call]
  · simpa using hdecode

/-- One step lists the phrase at the cursor and stops behind it. -/
theorem codeStep_phrase (hcpu : job.cpu = q.instructionSet)
    (hbase : job.setting.image.base ≤ p.cursor.offset)
    (hlast : p.cursor.offset ≤ job.setting.image.last) (ho : p.cursor.overflow = false) :
    let items := phrase job.setting p.cursor.offset q
    (p.codeStep job extension).output.lines = p.output.lines ++ items ∧
      Stops job.setting p.cursor.offset (byteCount items) (p.codeStep job extension).cursor := by
  have hpos := byteCount_phrase_pos q (Image.byte?_isSome_iff.2 ⟨hbase, hlast⟩)
  rcases before_phrase hbase hlast ho q with hhandles | ⟨hdeclined, hphrase⟩
  · have hoffset := hhandles.stops.offset
    have hlt : p.cursor.offset < (before job.setting p.cursor ()).cursor.offset := by omega
    have hstep : p.codeStep job extension = { p with started := p.started + 1 }.absorb
        (before job.setting p.cursor p.state) := Pass.codeStep_handled hhandles.takes hlt
    have hplain := phrase_plain q job.setting p.cursor.offset
    dsimp only
    rw [← hhandles.items] at hplain
    rw [hstep]
    refine ⟨?_, hhandles.stops⟩
    rw [← hhandles.items]
    exact Pass.lines_absorb { p with started := p.started + 1 } hplain
  · have hdecode : job.cpu.decode job.setting p.cursor =
        q.instructionSet.decode job.setting { offset := p.cursor.offset } := by
      rw [hcpu, q.sound.decode_place job.setting ho]
    have hplain : (job.cpu.decode job.setting p.cursor).item.hasLabel = false := by
      rw [hdecode]
      exact (q.sound.decode_frame job.setting _).2
    have hleft : extension.before job.setting p.cursor p.state =
        { handled := false, state := p.state, cursor := p.cursor } := hdeclined
    obtain ⟨hcursor, -, hlines⟩ := Pass.codeStep_declined hleft hplain
    obtain ⟨-, -, hoffset, hover⟩ := q.sound.decode_within (s := job.setting) hbase hlast
    have hinside := (q.sound.decode_liesAt hbase hlast).inside
    rw [hdecode] at hcursor hlines
    dsimp only
    rw [hphrase, hcursor, byteCount_cons, byteCount_nil, Nat.add_zero]
    exact ⟨hlines, by omega, hover⟩

theorem Stands.advances_phrase (hcpu : job.cpu = q.instructionSet)
    (hp : Stands job.setting last p place) (hfit : last ≤ job.setting.image.last)
    (hle : place ≤ last) :
    ∃ p', Advances job extension last p (phrase job.setting place q) p' ∧
      Stands job.setting last p' (place + byteCount (phrase job.setting place q)) := by
  obtain ⟨rfl, ho⟩ := hp.inside hle
  have hlast := Int.le_trans hle hfit
  have hpos := byteCount_phrase_pos q (Image.byte?_isSome_iff.2 ⟨hp.base, hlast⟩)
  obtain ⟨hlines, hstops⟩ := codeStep_phrase hcpu hp.base hlast ho
  have hoffset := hstops.offset
  exact ⟨_, advances_codeStep hle ho (by omega) hlines, hstops.stands hfit hp.base⟩

/-- From a pass that stands at a place, the phrases from there on are listed. -/
theorem Stands.lists_listing (hcpu : job.cpu = q.instructionSet)
    (hp : Stands job.setting last p place) (hfit : last ≤ job.setting.image.last) :
    Lists job extension last p (p.output.lines ++ listing job.setting last q place) := by
  fun_induction listing job.setting last q place generalizing p with
  | case1 place hin ih =>
      obtain ⟨p', hphrase, hp'⟩ := hp.advances_phrase hcpu hfit hin.1
      have hrest := ih hp'
      rw [hphrase.lines, List.append_assoc] at hrest
      exact hphrase.goesOn _ hrest
  | case2 place hout =>
      have hlt : last < place := by
        refine Int.not_le.1 fun hle => hout ⟨hle, ?_⟩
        exact Image.byte?_isSome_iff.2 ⟨hp.base, Int.le_trans hle hfit⟩
      rw [List.append_nil]
      exact lists_of_lt (hp.behind hlt)

/-! ## Parts and runs -/

theorem part_lines (hcpu : job.cpu = q.instructionSet) {r : Region}
    (hbase : job.setting.image.base ≤ r.first) (hlast : r.last ≤ job.setting.image.last)
    (p : Pass Unit) : (p.part job extension r).output.lines =
      p.output.lines ++ lines q job.setting r := by
  have hdata : r.kind ≠ .code →
      ∀ item ∈ q.instructionSet.lines job.setting r, item.hasLabel = false :=
    fun hk item hi => (InstructionSet.isData_lines hk item hi).1
  unfold Pass.part lines
  unfold InstructionSet.lines at hdata ⊢
  dsimp only
  rw [hcpu]
  cases hk : r.kind with
  | code =>
      have hle := r.first_le_last
      have hlength : r.length = r.last - r.first + 1 := rfl
      have hstart : Stands job.setting r.last ((p.note [.part r]).seek r) r.first :=
        ⟨hbase, fun _ => ⟨rfl, rfl⟩, fun hlt => by omega⟩
      have hfuel : (r.last : Int) <
          ((p.note [.part r]).seek r).cursor.offset + r.length := by
        rw [(hstart.inside (by omega)).1]
        omega
      exact (Output.lines_fixup _).trans (hstart.lists_listing hcpu hlast r.length hfuel)
  | bytes | words | gap =>
      rw [hk] at hdata
      exact p.output.lines_addAll_of_plain (hdata nofun)
  | custom =>
      rw [hk] at hdata
      rw [← hcpu] at hdata ⊢
      exact p.output.lines_addAll_of_plain (hdata nofun)

/-- A run under the conventions of the Z88 lists of every part what the grammar lists of it, code as
phrases; an output is there whenever the range meets the image in the address space. The phrases of a
part of code list the bytes of the image from its start on, none left out and none twice, and go on
behind the end of the image only if it cuts off a call, which is the last of them. -/
theorem run_lists_phrases (q : Processor) (map : MemoryMap) (s : Setting) (first last : Int)
    (hbase : 0 ≤ s.image.base)
    (hrange : max first s.image.base ≤ min last (min s.image.last 0xFFFF)) :
    let job : Job := ⟨q.instructionSet, map, s⟩
    ∃ o window, (job.run extension () first last).output = some o ∧
      job.window first last = some window ∧
      o.lines = (job.parts window).flatMap (lines q s) ∧
      ∀ r ∈ job.parts window, r.kind = .code → Gapless s r.first r.last (lines q s r) := by
  intro job
  obtain ⟨o, window, ho, hwindow, hfirst, hlast, hlines⟩ := job.run_lists extension () first last
    q.sound.mask hbase hrange fun r hr hr' => part_lines rfl hr hr'
  refine ⟨o, window, ho, hwindow, hlines, ?_⟩
  intro r hr hcode
  obtain ⟨hrbase, hrlast⟩ := Job.parts_fit q.sound.mask hbase hwindow r hr
  have hle := r.first_le_last
  rw [lines, hcode]
  exact listing_gapless hrlast hrbase (by omega)

/-- A call with a text behind it, an instruction, a call with two bytes of code, and one that the
image cuts off. -/
theorem run_lists_phrases_text :
    let s : Setting := { image := { bytes := #[0xE7, 0x93, 0x48, 0x69, 0x00, 0xDD, 0x36, 0x01,
      0x02, 0xE7, 0x06, 0x1B, 0xEF, 0x34] } }
    let job : Job := ⟨Processor.z80.instructionSet, .ofList [.span 0 13 .code], s⟩
    ∃ o window, (job.run extension () 0 0xFFFF).output = some o ∧
      o.lines.map Item.opcodes = [[0xE7, 0x93], [0x48, 0x69, 0x00], [0xDD, 0x36, 0x01, 0x02],
        [0xE7, 0x06, 0x1B], [0xEF, 0x34, 0x00, 0x00]] ∧
      o.lines.map Item.address = [0, 0, 5, 9, 12] ∧
      job.window 0 0xFFFF = some window ∧
      o.lines = (job.parts window).flatMap (lines .z80 s) := by
  intro s job
  obtain ⟨o, window, ho, hwindow, hlines, -⟩ := run_lists_phrases .z80
    (.ofList [.span 0 13 .code]) s 0 0xFFFF (by decide) (by decide)
  have hshown : (job.run extension () 0 0xFFFF).output.map (fun o =>
      (o.lines.map Item.opcodes, o.lines.map Item.address)) =
      some ([[0xE7, 0x93], [0x48, 0x69, 0x00], [0xDD, 0x36, 0x01, 0x02],
        [0xE7, 0x06, 0x1B], [0xEF, 0x34, 0x00, 0x00]], [0, 0, 5, 9, 12]) := by decide +kernel
  rw [show (job.run extension () 0 0xFFFF).output = some o from ho] at hshown
  obtain ⟨hopcodes, haddresses⟩ := Prod.mk.inj (Option.some_inj.1 hshown)
  exact ⟨o, window, ho, hopcodes, haddresses, hwindow, hlines⟩

end RomListing.Z88

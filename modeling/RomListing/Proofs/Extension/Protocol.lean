import RomListing.Proofs.Extension.Reading

/-! # How a script is called

The journal of a script tells how a pass calls its extension. Over a code region the pass takes
turns: it shows the script each place where something is read, and every instruction that the script
left to it, before it goes on behind the bytes that were read.
-/

namespace RomListing

open Extension (Call)

structure Script.Turn where
  place : Int
  /-- The number of bytes that are read. -/
  bytes : Nat
  item : Item
  /-- The item is an instruction, and not what the script reads. -/
  decoded : Bool

structure Script.Chapter where
  calls : List Call
  items : List Item
  /-- The items that are instructions. -/
  decoded : List Item

namespace Script

/-- A script reads the bytes it claims as far as the image has them, and lists zeros for the others.
Where it claims nothing, or no byte at all, the instruction is read. -/
def turn (script : Script) (cpu : InstructionSet) (s : Setting) (place : Int) : Turn :=
  match script.claims.lookup ((s.image.byteAt place).toNat : Int) with
  | some (n + 1) =>
    { place := place
      bytes := min (n + 1) (s.image.last + 1 - place).toNat
      item :=
        { address := s.shownAddress place
          opcodes := s.image.slice place (n + 1)
          text := "claimed" }
      decoded := false }
  | _ =>
    let d := cpu.decode s { offset := place }
    { place := place, bytes := d.item.opcodes.length, item := d.item, decoded := true }

/-- What a script is shown before a turn: nothing is overrun yet. -/
def sightAt (s : Setting) (place : Int) : Sight :=
  ⟨place, false, s.image.byteAt place, s.options.partitionAt place⟩

/-- The script is shown what is at the place, and afterwards the instruction if one was read. -/
def Turn.calls (s : Setting) (t : Turn) : List Call :=
  .before (sightAt s t.place) :: if t.decoded then [.after (s.shownAddress t.place)] else []

/-- Turns from a place on, each behind the bytes of the one before it, up to the first place that is
behind `last`. -/
inductive Turns (script : Script) (cpu : InstructionSet) (s : Setting) (last : Int) :
    Int → List Turn → Prop where
  | stop {place : Int} : last < place → Turns script cpu s last place []
  | take {place : Int} {turns : List Turn} : place ≤ last →
      Turns script cpu s last (place + (script.turn cpu s place).bytes) turns →
      Turns script cpu s last place (script.turn cpu s place :: turns)

/-- How a part is listed: a code region in turns, after a call at its start; a custom region by one
call, as one item or else as bytes; other regions without a call. -/
def Tells (script : Script) (cpu : InstructionSet) (s : Setting) (r : Region) (chapter : Chapter) :
    Prop :=
  match r.kind with
  | .code => ∃ turns, script.Turns cpu s r.last r.first turns ∧ chapter =
      { calls := .start r :: turns.flatMap (Turn.calls s)
        items := turns.map Turn.item
        decoded := (turns.filter Turn.decoded).map Turn.item }
  | .custom => chapter =
      { calls := [.custom r]
        items := if script.custom then
            [{ address := s.shownAddress r.first
               opcodes := s.image.slice r.first r.length
               text := "dump" }]
          else cpu.byteLines s r
        decoded := [] }
  | .bytes | .words | .gap => chapter = { calls := [], items := cpu.lines s r, decoded := [] }

def shown? : Call → Option Int
  | .after address => some address
  | _ => none

/-! ## Passes that call a script -/

/-- The pass has gone from `p` to `p'`, with these calls and these items. -/
structure Goes (p : Pass Journal) (calls : List Call) (items : List Item) (p' : Pass Journal) :
    Prop where
  calls : p'.state.toList = p.state.toList ++ calls
  items : p'.output.lines = p.output.lines ++ items

namespace Goes

variable {p p' p'' : Pass Journal} {calls calls' : List Call} {items items' : List Item}

/-- Neither a call nor an item. -/
theorem of_silent (hstate : p'.state = p.state) (houtput : p'.output = p.output) :
    Goes p [] [] p' :=
  ⟨hstate ▸ (List.append_nil _).symm, houtput ▸ (List.append_nil _).symm⟩

theorem trans (h : Goes p calls items p') (h' : Goes p' calls' items' p'') :
    Goes p (calls ++ calls') (items ++ items') p'' :=
  ⟨by rw [h'.calls, h.calls, List.append_assoc], by rw [h'.items, h.items, List.append_assoc]⟩

theorem fixup (h : Goes p calls items p') : Goes p calls items p'.fixup :=
  ⟨h.calls, p'.output.lines_fixup.trans h.items⟩

theorem note (h : Goes p calls items p') (notices : List Notice) :
    Goes p calls items (p'.note notices) :=
  ⟨h.calls, h.items⟩

/-- Lines that are listed as data call nobody. -/
theorem addLines (p : Pass Journal) {lines : List Item}
    (h : ∀ item ∈ lines, InstructionSet.IsData item) : Goes p [] lines (p.addLines lines) :=
  ⟨(List.append_nil _).symm, Output.lines_addAll_of_plain _ fun item hi => (h item hi).1⟩

end Goes

section

variable (script : Script) {job : Job} {a : Alphabet} {longest : Nat} {p : Pass Journal}

/-- Reading an instruction shows it to the script. -/
theorem goes_decodeStep (h : job.cpu.Sound a longest) (ho : p.cursor.overflow = false) :
    let d := job.cpu.decode job.setting { offset := p.cursor.offset }
    Goes p [.after (job.setting.shownAddress p.cursor.offset)] [d.item]
      (p.decodeStep job script.extension) ∧
      (p.decodeStep job script.extension).cursor = d.cursor := by
  intro d
  obtain ⟨hcursor, hstate, houtput⟩ := Pass.decodeStep_place script.extension h ho
  obtain ⟨haddress, hplain⟩ := h.decode_frame job.setting { offset := p.cursor.offset }
  refine ⟨⟨?_, ?_⟩, hcursor⟩
  · rw [hstate]
    show (p.state.push (.after d.item.address)).toList = _
    rw [Array.toList_push, haddress]
  · rw [houtput]
    show ((p.output.refer d.references).add d.item).lines = _
    have hitem : ∀ item ∈ [d.item], item.hasLabel = false := List.forall_mem_singleton.2 hplain
    have hlines := Output.lines_addAll_of_plain (p.output.refer d.references) hitem
    rw [Output.lines_refer] at hlines
    exact hlines

/-- What the script does is taken over by a pass that is as it was. -/
theorem goes_absorb {q : Pass Journal} {step : Step Journal} {call : Call} {items : List Item}
    (hq : Goes p [] [] q) (hstate : step.state = q.state.push call) (hitems : step.items = items)
    (hplain : ∀ item ∈ items, item.hasLabel = false) : Goes p [call] items (q.absorb step) := by
  subst hitems
  have habsorb : Goes q [call] step.items (q.absorb step) :=
    ⟨(congrArg Array.toList hstate).trans Array.toList_push, q.lines_absorb hplain⟩
  exact hq.trans habsorb

theorem peek_eq_sightAt {s : Setting} {c : Cursor} (hbase : s.image.base ≤ c.offset)
    (hlast : c.offset ≤ s.image.last) : c.peek s 0 = sightAt s c.offset := by
  have hbeyond := Cursor.beyond_eq_false.2 ⟨hbase, hlast⟩
  simp only [Cursor.peek, Int.add_zero] at hbeyond ⊢
  rw [hbeyond]
  rfl

section

variable (h : job.cpu.Sound a longest) (hbase : job.setting.image.base ≤ p.cursor.offset)
  (hlast : p.cursor.offset ≤ job.setting.image.last) (ho : p.cursor.overflow = false)
include h hbase hlast ho

/-- Where the script reads nothing the instruction is read, whether it took over or not. -/
theorem goes_codeStep_decoded
    (hclaim : script.claimAt job.setting p.cursor.offset = none ∨
      script.claimAt job.setting p.cursor.offset = some 0) :
    let d := job.cpu.decode job.setting { offset := p.cursor.offset }
    Goes p [.before (sightAt job.setting p.cursor.offset),
      .after (job.setting.shownAddress p.cursor.offset)] [d.item]
      (p.codeStep job script.extension) ∧
      (p.codeStep job script.extension).cursor = d.cursor := by
  intro d
  have hsight := peek_eq_sightAt hbase hlast
  -- the call before the instruction leaves the cursor where it is
  have hread (q : Pass Journal) (hcursor : q.cursor = p.cursor)
      (hcall : Goes p [.before (sightAt job.setting p.cursor.offset)] [] q) :
      Goes p [.before (sightAt job.setting p.cursor.offset),
        .after (job.setting.shownAddress p.cursor.offset)] [d.item]
        (q.decodeStep job script.extension) ∧
        (q.decodeStep job script.extension).cursor = d.cursor := by
    obtain ⟨hgoes, hend⟩ := script.goes_decodeStep (p := q) h (hcursor ▸ ho)
    rw [hcursor] at hgoes hend
    exact ⟨hcall.trans hgoes, hend⟩
  rcases hclaim with hclaim | hclaim
  · have hbefore := before_of_none hclaim p.state
    have hcode : p.codeStep job script.extension = _ :=
      Pass.codeStep_declines (congrArg Step.handled hbefore)
    rw [hsight] at hbefore
    rw [hcode, hbefore]
    exact hread _ rfl (goes_absorb (.of_silent rfl rfl) rfl rfl (List.forall_mem_nil _))
  · have hbefore := before_of_some hclaim p.state
    have hcode : p.codeStep job script.extension = _ :=
      Pass.codeStep_stalls (congrArg Step.handled hbefore)
        (hbefore ▸ ⟨rfl, ho⟩)
    rw [hsight, if_pos rfl, if_pos rfl] at hbefore
    rw [hcode, hbefore]
    refine hread _ rfl (Goes.note ?_ _)
    exact goes_absorb (.of_silent rfl rfl) rfl rfl (List.forall_mem_nil _)

omit h ho in
/-- Where the script claims bytes it reads those that the image has. -/
theorem goes_codeStep_claimed {n : Nat}
    (hclaim : script.claimAt job.setting p.cursor.offset = some (n + 1)) :
    Goes p [.before (sightAt job.setting p.cursor.offset)]
      [{ address := job.setting.shownAddress p.cursor.offset
         opcodes := job.setting.image.slice p.cursor.offset (n + 1)
         text := "claimed" }]
      (p.codeStep job script.extension) ∧
      (p.codeStep job script.extension).cursor.offset =
        p.cursor.offset + min (n + 1) (job.setting.image.last + 1 - p.cursor.offset).toNat := by
  have hbefore := before_of_some hclaim p.state
  have hoffset := (p.cursor.fetchMany_reads job.setting (n + 1)).offset
  rw [peek_eq_sightAt hbase hlast, if_neg (Nat.succ_ne_zero n), if_neg (Nat.succ_ne_zero n),
    Cursor.fetchMany_bytes hbase] at hbefore
  rw [Image.available_eq_min hbase] at hoffset
  have hmoves : (script.extension.before job.setting p.cursor p.state).cursor.offset ≠
      p.cursor.offset := by
    -- at least the byte at the place is there
    rw [hbefore, hoffset]
    omega
  have hcode : p.codeStep job script.extension = _ :=
    Pass.codeStep_takes (congrArg Step.handled hbefore) fun hstalls => hmoves hstalls.1
  rw [hcode, hbefore]
  exact ⟨goes_absorb (.of_silent rfl rfl) rfl rfl (List.forall_mem_singleton.2 rfl), hoffset⟩

/-- A step over code takes the turn at its place. -/
theorem goes_codeStep :
    let t := script.turn job.cpu job.setting p.cursor.offset
    Goes p (t.calls job.setting) [t.item] (p.codeStep job script.extension) ∧
      (p.codeStep job script.extension).cursor.offset = p.cursor.offset + t.bytes := by
  intro t
  have hclaim := script.claimAt_inside job.setting ⟨hbase, hlast⟩
  obtain ⟨-, -, hoffset, -⟩ := h.decode_within (s := job.setting) hbase hlast
  rcases hlookup : script.claims.lookup ((job.setting.image.byteAt p.cursor.offset).toNat : Int)
    with _ | _ | n
  · obtain ⟨hgoes, hcursor⟩ :=
      script.goes_codeStep_decoded h hbase hlast ho (.inl (hclaim.trans hlookup))
    simp only [t, turn, hlookup, hcursor]
    exact ⟨hgoes, hoffset⟩
  · obtain ⟨hgoes, hcursor⟩ :=
      script.goes_codeStep_decoded h hbase hlast ho (.inr (hclaim.trans hlookup))
    simp only [t, turn, hlookup, hcursor]
    exact ⟨hgoes, hoffset⟩
  · simp only [t, turn, hlookup]
    exact script.goes_codeStep_claimed hbase hlast (hclaim.trans hlookup)

end

/-! ## Parts -/

/-- Reading on takes one turn after another. -/
theorem goes_codeLoop (h : job.cpu.Sound a longest) {last : Int}
    (hfit : last ≤ job.setting.image.last) (fuel : Nat)
    (hbase : job.setting.image.base ≤ p.cursor.offset)
    (hover : p.cursor.overflow = true → job.setting.image.last < p.cursor.offset)
    (hfuel : last + 1 ≤ p.cursor.offset + fuel) :
    ∃ turns, script.Turns job.cpu job.setting last p.cursor.offset turns ∧
      Goes p (turns.flatMap (Turn.calls job.setting)) (turns.map Turn.item)
        (Pass.codeLoop job script.extension last fuel p) := by
  induction fuel generalizing p with
  | zero => exact ⟨[], .stop (by omega), .of_silent rfl rfl⟩
  | succ fuel ih =>
      unfold Pass.codeLoop
      by_cases hin : p.cursor.offset ≤ last
      · have hlast := Int.le_trans hin hfit
        have ho : p.cursor.overflow = false :=
          Bool.eq_false_iff.2 fun ho => absurd (hover ho) (Int.not_lt.2 hlast)
        obtain ⟨hgoes, hoffset⟩ := script.goes_codeStep h hbase hlast ho
        obtain ⟨hstep, hover'⟩ :=
          Pass.codeStep_iteration h script.extension_reading hbase hlast ho
        have hmoves := hstep.moves
        obtain ⟨turns, hturns, hrest⟩ := ih (p := p.codeStep job script.extension)
          (by omega) hover' (by omega)
        rw [if_pos ⟨hin, ho⟩]
        rw [hoffset] at hturns
        exact ⟨_ :: turns, .take hin hturns, hgoes.trans hrest⟩
      · rw [if_neg fun hgoes => hin hgoes.1]
        exact ⟨[], .stop (Int.not_le.1 hin), .of_silent rfl rfl⟩

theorem dump_bytes {s : Setting} {last : Int} (hfit : last ≤ s.image.last) {left : Nat}
    {c : Cursor} (hbase : s.image.base ≤ c.offset) (hleft : c.offset + left = last + 1) :
    (dump s last left c).1 = s.image.slice c.offset left := by
  induction left generalizing c with
  | zero => rfl
  | succ left ih =>
      have hin : s.image.base ≤ c.offset ∧ c.offset ≤ s.image.last := ⟨hbase, by omega⟩
      have hgoes : c.offset ≤ last ∧ (c.peek s 0).beyond = false :=
        ⟨by omega, Cursor.beyond_eq_false.2 hin⟩
      have hoffset : (c.fetch s).2.offset = c.offset + 1 := by
        rw [(c.fetch_reads s).offset, Image.available_eq_self hbase (by omega)]
        rfl
      rw [dump, if_pos hgoes]
      show (c.fetch s).1 :: (dump s last left (c.fetch s).2).1 = _
      rw [ih (c := (c.fetch s).2) (by omega) (by omega), hoffset, c.fetch_byte]
      rfl

/-- A custom region is one call, whoever lists it then. -/
theorem goes_customPart (p : Pass Journal) {r : Region} (hbase : job.setting.image.base ≤ r.first)
    (hlast : r.last ≤ job.setting.image.last) :
    Goes p [.custom r]
      (if script.custom then
        [{ address := job.setting.shownAddress r.first
           opcodes := job.setting.image.slice r.first r.length
           text := "dump" }]
      else job.cpu.byteLines job.setting r)
      (p.customPart job script.extension r) := by
  have hle := r.first_le_last
  have hlength : (r.first : Int) + r.length = r.last + 1 := by
    unfold Region.length
    omega
  have hbytes : (dump job.setting r.last r.length (p.seek r).cursor).1 =
      job.setting.image.slice r.first r.length := dump_bytes hlast hbase hlength
  unfold Pass.customPart
  dsimp only [extension, customRegion]
  cases hcustom : script.custom with
  | true =>
      rw [if_pos rfl, if_pos rfl, if_pos rfl, hbytes]
      refine Goes.fixup ?_
      exact goes_absorb (.of_silent rfl rfl) rfl rfl (List.forall_mem_singleton.2 rfl)
  | false =>
      rw [if_neg Bool.false_ne_true, if_neg Bool.false_ne_true, if_neg Bool.false_ne_true]
      let declined : Step Journal :=
        { handled := false, state := p.state.push (.custom r), cursor := (p.seek r).cursor }
      have hdeclined : Goes p [.custom r] [] ((p.seek r).absorb declined) :=
        goes_absorb (.of_silent rfl rfl) rfl rfl (List.forall_mem_nil _)
      exact hdeclined.trans (Goes.addLines _ (InstructionSet.isData_byteLines r))

theorem goes_part (h : job.cpu.Sound a longest) (p : Pass Journal) {r : Region}
    (hbase : job.setting.image.base ≤ r.first) (hlast : r.last ≤ job.setting.image.last) :
    ∃ chapter, script.Tells job.cpu job.setting r chapter ∧
      Goes p chapter.calls chapter.items (p.part job script.extension r) := by
  have hle := r.first_le_last
  have hlength : r.length = r.last - r.first + 1 := rfl
  have data (hk : r.kind ≠ .code) :
      ∀ item ∈ job.cpu.lines job.setting r, InstructionSet.IsData item :=
    InstructionSet.isData_lines hk
  let noted := p.note [.part r]
  have hnoted : Goes p [] [] noted := .of_silent rfl rfl
  unfold Tells Pass.part
  unfold InstructionSet.lines at data ⊢
  cases hk : r.kind with
  | code =>
      let entered : Pass Journal := ({ noted with state := p.state.push (.start r) }.note []).seek r
      have hstart : Goes p [.start r] [] entered :=
        ⟨Array.toList_push, (List.append_nil _).symm⟩
      obtain ⟨turns, hturns, hgoes⟩ := script.goes_codeLoop (p := entered) h hlast
        r.length hbase nofun (show (r.last : Int) + 1 ≤ r.first + r.length by omega)
      exact ⟨_, ⟨turns, hturns, rfl⟩, (hstart.trans hgoes).fixup⟩
  | bytes | words | gap =>
      rw [hk] at data
      exact ⟨_, rfl, hnoted.trans (Goes.addLines noted (data nofun))⟩
  | custom =>
      exact ⟨_, rfl, hnoted.trans (script.goes_customPart noted hbase hlast)⟩

theorem goes_parts (h : job.cpu.Sound a longest) {rs : List Region}
    (hfit : ∀ r ∈ rs, job.setting.image.base ≤ r.first ∧ r.last ≤ job.setting.image.last)
    (p : Pass Journal) :
    ∃ chapters, List.Forall₂ (script.Tells job.cpu job.setting) rs chapters ∧
      Goes p (chapters.flatMap Chapter.calls) (chapters.flatMap Chapter.items)
        (rs.foldl (Pass.part job script.extension) p) := by
  induction rs generalizing p with
  | nil => exact ⟨[], .nil, .of_silent rfl rfl⟩
  | cons r rs ih =>
      rw [List.forall_mem_cons] at hfit
      obtain ⟨chapter, htells, hgoes⟩ := script.goes_part h p hfit.1.1 hfit.1.2
      obtain ⟨chapters, hrest, hgoes'⟩ := ih hfit.2 (p.part job script.extension r)
      exact ⟨chapter :: chapters, .cons htells hrest, hgoes.trans hgoes'⟩

end

/-! ## The instructions that are shown -/

section

variable {script : Script} {cpu : InstructionSet} {s : Setting} {a : Alphabet} {longest : Nat}

theorem Turns.shown (h : cpu.Sound a longest) {last place : Int} {turns : List Turn}
    (hturns : script.Turns cpu s last place turns) :
    (turns.flatMap (Turn.calls s)).filterMap shown? =
      ((turns.filter Turn.decoded).map Turn.item).map Item.address := by
  induction hturns with
  | stop hlt => rfl
  | @take place turns hle hrest ih =>
      rw [List.flatMap_cons, List.filterMap_append, ih]
      unfold turn Turn.calls
      split
      · rfl
      · exact congrArg (· :: _) (h.decode_frame s { offset := place }).1.symm

theorem Tells.shown (h : cpu.Sound a longest) {r : Region} {chapter : Chapter}
    (htells : script.Tells cpu s r chapter) :
    chapter.calls.filterMap shown? = chapter.decoded.map Item.address := by
  unfold Tells at htells
  split at htells
  · obtain ⟨turns, hturns, rfl⟩ := htells
    exact hturns.shown h
  all_goals
    subst htells
    rfl

theorem shown_chapters (h : cpu.Sound a longest) {rs : List Region} {chapters : List Chapter}
    (htells : List.Forall₂ (script.Tells cpu s) rs chapters) :
    (chapters.flatMap Chapter.calls).filterMap shown? =
      (chapters.flatMap Chapter.decoded).map Item.address := by
  induction htells with
  | nil => rfl
  | cons hhead hrest ih =>
      rw [List.flatMap_cons, List.flatMap_cons, List.filterMap_append, List.map_append, ih,
        hhead.shown h]

end

end Script

/-! ## Runs -/

namespace Job

theorem run_state {σ : Type} (job : Job) (ext : Extension σ) (state : σ) (first last : Int) :
    (job.run ext state first last).state =
      if job.setting.image.bytes.isEmpty then state
      else ((job.window first last).map fun window =>
        ((job.parts window).foldl (Pass.part job ext)
          { cursor := { offset := 0 }, state := state }).state).getD state := by
  unfold run
  split
  · rfl
  · cases job.window first last <;> rfl

/-- How a pass calls a script. Where nothing of the request can be listed there is no output and no
call. Else the new calls of the journal are those of the parts, in ascending order, and the items of
the output are theirs; and the instructions that the script is shown afterwards are, in order, the
items that are instructions. -/
theorem run_calls_script (q : Processor) (script : Script) (map : MemoryMap) (s : Setting)
    (journal : Script.Journal) (first last : Int) (hbase : 0 ≤ s.image.base) :
    let job : Job := ⟨q.instructionSet, map, s⟩
    let report := job.run script.extension journal first last
    (¬max first s.image.base ≤ min last (min s.image.last 0xFFFF) →
      report.output = none ∧ report.state = journal) ∧
    (max first s.image.base ≤ min last (min s.image.last 0xFFFF) →
      ∃ o window chapters, report.output = some o ∧ job.window first last = some window ∧
        List.Forall₂ (script.Tells job.cpu s) (job.parts window) chapters ∧
        report.state.toList = journal.toList ++ chapters.flatMap Script.Chapter.calls ∧
        o.lines = chapters.flatMap Script.Chapter.items ∧
        (chapters.flatMap Script.Chapter.calls).filterMap Script.shown? =
          (chapters.flatMap Script.Chapter.decoded).map Item.address) := by
  intro job report
  have hsound : job.cpu.Sound q.alphabet q.longest := q.sound
  constructor
  · intro hrange
    have hwindow : job.window first last = none := by
      rw [← Option.not_isSome_iff_eq_none, window_isSome hsound.mask]
      exact hrange
    simp [report, run_output, run_state, hwindow]
  · intro hrange
    obtain ⟨window, hwindow, -⟩ := window_eq_some hsound.mask hbase hrange
    have hbytes : job.setting.image.bytes.isEmpty = false := job.bytes_nonempty hrange
    obtain ⟨chapters, htells, hgoes⟩ := script.goes_parts hsound
      (parts_fit hsound.mask hbase hwindow) { cursor := { offset := 0 }, state := journal }
    refine ⟨job.listing script.extension journal window, window, chapters, ?_, hwindow, htells, ?_,
      hgoes.fixup.items, ?_⟩
    · simp [report, run_output, hbytes, hwindow]
    · simp only [report, run_state, hbytes, hwindow]
      exact hgoes.calls
    · exact Script.shown_chapters hsound htells

/-- One call reads nothing, one reads two bytes, the last one asks for nine where two are left. -/
theorem run_calls_script_greedy :
    let script : Script :=
      { claims := [(0x00, 0), (0x3E, 2), (0xC3, 9)], custom := true, label := some 3 }
    let s : Setting :=
      { image := { bytes := #[0x00, 0x3E, 0x05, 0x76, 0x11, 0xC9, 0xC3, 0x01], base := 1 }
        addressOffset := 0x8000 }
    let map := MemoryMap.ofList [.span 1 3 .code, .span 4 5 .custom, .span 6 9 .code]
    let job : Job := ⟨Processor.z80.instructionSet, map, s⟩
    let report := job.run script.extension #[] 0 9
    let shows (place : Int) (b : UInt8) : Call := .before ⟨place, false, b, none⟩
    0 ≤ s.image.base ∧ max 0 s.image.base ≤ min 9 (min s.image.last 0xFFFF) ∧
      (∃ window chapters, job.window 0 9 = some window ∧
        List.Forall₂ (script.Tells job.cpu s) (job.parts window) chapters ∧
        report.state.toList = chapters.flatMap Script.Chapter.calls) ∧
      report.state = #[.start (.span 1 3 .code), shows 1 0x00, .after 0x8001, shows 2 0x3E,
        .custom (.span 4 5 .custom), .start (.span 6 8 .code), shows 6 0xC9, .after 0x8006,
        shows 7 0xC3] := by
  intro script s map job report shows
  have hbase : 0 ≤ s.image.base := by decide
  have hrange : max 0 s.image.base ≤ min 9 (min s.image.last 0xFFFF) := by decide
  obtain ⟨-, hcalls⟩ := run_calls_script .z80 script map s #[] 0 9 hbase
  obtain ⟨o, window, chapters, -, hwindow, htells, hstate, -⟩ := hcalls hrange
  refine ⟨hbase, hrange, ⟨window, chapters, hwindow, htells, ?_⟩, by decide +kernel⟩
  rw [hstate, Array.toList_empty, List.nil_append]

end Job

end RomListing

import RomListing.Proofs.Pass.Coverage
import RomListing.Proofs.Pass.Steps
import RomListing.Proofs.Relocation.Conventions
import RomListing.Proofs.Spectrum.Grammar

/-! # The modes of the Spectrum extension follow the grammar

The extension knows what the bytes at a cursor are from a mode, set when it was shown an earlier
instruction, and from the count of the numbers that are still due. A phrase starts in the idle
mode with no number due and ends so, unless the part ends before it: then the mode is left as it
is, but nothing is read in it any more.
-/

namespace RomListing.Spectrum

open ByteCode (operands)
open Calculator (entry)
open Pass (Lists Advances lists_of_lt advances_codeStep)

/-! ## Single entries -/

namespace Calculator

/-- `end-calc` and `jump` end the byte code, and nothing else does; how many numbers are due after
an operation depends on its code alone. -/
theorem entry_operation (s : Setting) (c : Cursor) :
    let code := s.image.byteAt c.offset
    ((entry s 0 c).goesOn = true ↔ ¬(code = 0x38 ∨ code = 0x33)) ∧
      (entry s 0 c).pending = operands code := by
  intro code
  have hcode : (c.fetch s).1 = code := c.fetch_byte s
  have hjumps : ∀ code : UInt8, (code = 0x00 ∨ code = 0x33) ∨ code = 0x35 →
      ((code != 0x33) = true ↔ ¬(code = 0x38 ∨ code = 0x33)) ∧ 0 = operands code := by
    rintro _ ((rfl | rfl) | rfl) <;> decide
  unfold entry
  rw [if_neg (by simp)]
  dsimp only
  rw [hcode]
  have hiff : isJump code = true ↔ (code = 0x00 ∨ code = 0x33) ∨ code = 0x35 := by simp [isJump]
  split
  · exact hjumps code (hiff.1 ‹_›)
  · rename_i hjump
    rw [hiff, not_or, not_or] at hjump
    exact ⟨by simp [hjump.1.2], ByteCode.numbersAfter_eq code⟩

theorem operands_of_ends {code : UInt8} (h : code = 0x38 ∨ code = 0x33) : operands code = 0 := by
  rcases h with rfl | rfl <;> decide

/-- An entry that ends the byte code is an operation, and leaves no number due. -/
theorem entry_ends {s : Setting} {pending : Nat} {c : Cursor}
    (h : (entry s pending c).goesOn = false) : (entry s pending c).pending = 0 := by
  cases pending with
  | succ pending => cases h
  | zero =>
      obtain ⟨hgoes, hpending⟩ := entry_operation s c
      have hcode := not_not.1 (hgoes.not.1 (by simp [h]))
      rw [hpending, operands_of_ends hcode]

theorem entry_plain (s : Setting) (pending : Nat) (c : Cursor) :
    (entry s pending c).item.hasLabel = false := by
  unfold entry
  split
  · rfl
  · dsimp only
    split <;> rfl

end Calculator

theorem entries_plain (s : Setting) (last : Int) (fuel pending : Nat) (c : Cursor) :
    ∀ item ∈ (entries s last fuel pending c).items, item.hasLabel = false := by
  induction fuel generalizing pending c with
  | zero => simp [entries]
  | succ fuel ih =>
      unfold entries
      dsimp only
      split
      · intro item hi
        rcases List.mem_cons.1 hi with rfl | hi
        · exact Calculator.entry_plain s pending c
        · exact ih _ _ item hi
      · simp

theorem calculatorEntry_state (s : Setting) (c : Cursor) (pending : Nat) :
    (calculatorEntry s c ⟨.calculator, pending⟩).state =
      ⟨if (entry s pending c).goesOn then .calculator else .idle, (entry s pending c).pending⟩ := by
  unfold calculatorEntry
  dsimp only
  split <;> rfl

/-- Whatever ends the calculator mode leaves no number due. -/
theorem before_pending (s : Setting) (c : Cursor) {st : State} (hmode : st.mode = .calculator)
    (hends : (before s c st).state.mode ≠ .calculator) : (before s c st).state.pending = 0 := by
  obtain ⟨mode, pending⟩ := st
  cases hmode
  unfold before at hends ⊢
  split at hends
  · exact absurd rfl hends
  · rename_i hbeyond
    rw [if_neg hbeyond]
    dsimp only at hends ⊢
    rw [calculatorEntry_state] at hends ⊢
    refine Calculator.entry_ends (Bool.not_eq_true _ ▸ fun hgoes => hends ?_)
    exact if_pos hgoes

theorem before_inside {s : Setting} {c : Cursor} (hin : (s.image.byte? c.offset).isSome = true)
    (st : State) : before s c st =
      match st.mode with
      | .idle => { handled := false, state := st, cursor := c }
      | .reportError => single st (errorCode s c)
      | .calculator => calculatorEntry s c st
      | .rom48Call => single st (routineAddress s c) := by
  have hbeyond : (c.peek s 0).beyond = false := by
    simpa [Cursor.peek] using hin
  unfold before
  rw [hbeyond]
  rfl

/-- In a mode that reads bytes itself the extension takes over, and reads some. -/
theorem before_reads {s : Setting} {c : Cursor} (hin : (s.image.byte? c.offset).isSome = true)
    {st : State} (hmode : st.mode ≠ .idle) :
    (before s c st).handled = true ∧ (∃ n, 0 < n ∧ c.Reads s n (before s c st).cursor) ∧
      ∀ item ∈ (before s c st).items, item.hasLabel = false := by
  obtain ⟨mode, pending⟩ := st
  rw [before_inside hin]
  cases mode with
  | idle => exact absurd rfl hmode
  | reportError => exact ⟨rfl, ⟨1, Nat.one_pos, errorCode_reads s c⟩, by simp [single, errorCode]⟩
  | calculator =>
      refine ⟨rfl, Calculator.entry_reads s pending c, ?_⟩
      simpa [calculatorEntry] using Calculator.entry_plain s pending c
  | rom48Call =>
      exact ⟨rfl, ⟨2, Nat.two_pos, routineAddress_reads s c⟩, by simp [single, routineAddress]⟩

/-! ## What an instruction calls for -/

def awaiting : Option Payload → State
  | none => {}
  | some .errorCode => { mode := .reportError }
  | some .program => { mode := .calculator }
  | some .routine => { mode := .rom48Call }

theorem after_awaiting (pages : Pages) (s : Setting) (item : Item) :
    let kind := payload? pages s.options item
    (after pages s item {}).state = awaiting kind ∧
      (after pages s item {}).remark = kind.map fun p => (p.remark : Text) := by
  unfold after payload? Conventions.payload?
  dsimp only
  rw [conventionsAt_eq]
  generalize pages.find (pageOf s.options item.address) = k
  have hcalls : callsCalculator item.opcodes = true ↔
      item.opcodes ∈ [[0xEF], [0xCD, 0x5E, 0x33], [0xCD, 0x62, 0x33]] := by
    simp [callsCalculator, or_assoc]
  simp only [Bool.and_eq_true, beq_iff_eq, hcalls]
  split
  · exact ⟨rfl, rfl⟩
  · split
    · exact ⟨rfl, rfl⟩
    · split <;> exact ⟨rfl, rfl⟩

/-! ## Passes at a place -/

/-- The pass stands at the place in the state, as far as that still counts: behind the end of the
part the state may be any, and there only a byte may have been missing. -/
structure Stands (s : Setting) (last : Int) (p : Pass State) (place : Int) (st : State) : Prop where
  offset : p.cursor.offset = place
  base : s.image.base ≤ place
  overflow : p.cursor.overflow = true → last < place
  state : place ≤ last → p.state = st

/-- Steps from the pass list the passage, and then the pass stands behind it in the state. -/
def Parses (job : Job) (pages : Pages) (last : Int) (p : Pass State) (x : Passage) (st : State) :
    Prop :=
  ∃ p', Advances job (extension pages) last p x.items p' ∧ Stands job.setting last p' x.stop st

variable {job : Job} {pages : Pages} {last place : Int} {p : Pass State} {st : State}

theorem Stands.parses_nil (hp : Stands job.setting last p place st) :
    Parses job pages last p { stop := place } st := ⟨p, .refl p, hp⟩

/-- Behind the end of the part nothing is read, whatever the state. -/
theorem Stands.parses_behind (hp : Stands job.setting last p place st) (h : ¬place ≤ last)
    (st' : State) : Parses job pages last p { stop := place } st' :=
  ⟨p, .refl p, hp.offset, hp.base, hp.overflow, fun hle => absurd hle h⟩

theorem Parses.append {x y : Passage} {st' : State} (h : Parses job pages last p x st)
    (h' : ∀ p', Stands job.setting last p' x.stop st → Parses job pages last p' y st') :
    Parses job pages last p { items := x.items ++ y.items, stop := y.stop } st' := by
  obtain ⟨p₁, hfirst, hp₁⟩ := h
  obtain ⟨p₂, hsecond, hp₂⟩ := h' p₁ hp₁
  exact ⟨p₂, hfirst.trans hsecond, hp₂⟩

theorem Stands.isSome (hp : Stands job.setting last p place st)
    (hfit : last ≤ job.setting.image.last) (hle : place ≤ last) :
    (job.setting.image.byte? place).isSome = true :=
  Image.byte?_isSome_iff.2 ⟨hp.base, Int.le_trans hle hfit⟩

theorem Stands.sound (hp : Stands job.setting last p place st) (hle : place ≤ last) :
    p.cursor.overflow = false := by
  cases hover : p.cursor.overflow with
  | false => rfl
  | true => exact absurd (hp.overflow hover) (Int.not_lt.2 hle)

/-- One step parses what it lists, if it reads from the place on and does not stay there. -/
theorem Stands.parses_codeStep (hp : Stands job.setting last p place st)
    (hfit : last ≤ job.setting.image.last) (hle : place ≤ last) {c d : Cursor} {n : Nat}
    (hpos : 0 < n) (hreads : c.Reads job.setting n d) (hoffset : c.offset = place)
    (hsound : c.overflow = false) {items : List Item} {st' : State}
    (hcursor : d.Meets 0 (p.codeStep job (extension pages)).cursor)
    (hstate : (p.codeStep job (extension pages)).state = st')
    (hlines : (p.codeStep job (extension pages)).output.lines = p.output.lines ++ items) :
    Parses job pages last p { items := items, stop := d.offset } st' := by
  subst hoffset
  have hlt : c.offset < d.offset := hreads.offset_lt hpos (hp.isSome hfit hle)
  have hstop := hcursor.offset
  rw [Int.add_zero] at hstop
  refine ⟨_, advances_codeStep (hp.offset ▸ hle) (hp.sound hle) ?_ hlines, hstop, ?_, ?_, ?_⟩
  · rw [hp.offset, hstop]
    exact hlt
  · exact Int.le_trans hp.base (Int.le_of_lt hlt)
  · intro hover
    rw [hcursor.overflow] at hover
    exact Int.lt_of_le_of_lt hfit (hreads.last_lt hp.base hsound hover)
  · exact fun _ => hstate

/-- In a mode that reads bytes itself, one step lists what the extension makes of the place. -/
theorem Stands.parses_step (hp : Stands job.setting last p place st)
    (hfit : last ≤ job.setting.image.last) (hle : place ≤ last) (hmode : st.mode ≠ .idle)
    {x : Step State} (hx : before job.setting { offset := place } st = x) :
    Parses job pages last p { items := x.items, stop := x.cursor.offset } x.state := by
  subst hx
  have hin := hp.isSome hfit hle
  obtain ⟨hhandled, ⟨n, hpos, hreads⟩, hplain⟩ :=
    before_reads (c := { offset := place }) hin hmode
  have hmeets : (before job.setting { offset := place } st).Meets 0
      (before job.setting p.cursor p.state) := by
    have hstart : Cursor.Meets 0 { offset := place } p.cursor :=
      ⟨hp.offset.trans (Int.add_zero place).symm, hp.sound hle⟩
    have hbefore := before_meets hstart job.setting st
    rw [hp.state hle]
    rwa [Setting.move_zero] at hbefore
  generalize before job.setting { offset := place } st = x at *
  have hlt : place < x.cursor.offset := hreads.offset_lt hpos hin
  have hoffset := hmeets.cursor.offset
  have hplace := hp.offset
  have hstep : p.codeStep job (extension pages) = { p with started := p.started + 1 }.absorb
      (before job.setting p.cursor p.state) :=
    Pass.codeStep_handled (hmeets.handled.trans hhandled)
      (show p.cursor.offset < (before job.setting p.cursor p.state).cursor.offset by omega)
  refine hp.parses_codeStep hfit hle hpos hreads rfl rfl ?_ ?_ ?_
  · rw [hstep]
    exact hmeets.cursor
  · rw [hstep]
    exact hmeets.state
  · rw [hstep, ← hmeets.items]
    rw [← hmeets.items] at hplain
    exact Pass.lines_absorb { p with started := p.started + 1 } hplain

/-- If that is one item, it parses the item. -/
theorem Stands.parses_single (hp : Stands job.setting last p place st)
    (hfit : last ≤ job.setting.image.last) (hle : place ≤ last) (hmode : st.mode ≠ .idle)
    {x : Step State} (hx : before job.setting { offset := place } st = x) {item : Item}
    (hitem : x.items = [item]) {size : Nat}
    (hreads : Cursor.Reads job.setting { offset := place } size x.cursor) :
    Parses job pages last p (.single job.setting place size item) x.state := by
  have hstep : Parses job pages last p ⟨x.items, x.cursor.offset⟩ x.state :=
    hp.parses_step hfit hle hmode hx
  rwa [hitem, hreads.offset] at hstep

/-! ## Payloads -/

theorem Stands.parses_token {due : Nat} (hp : Stands job.setting last p place ⟨.calculator, due⟩)
    (hfit : last ≤ job.setting.image.last) (hle : place ≤ last) :
    Parses job pages last p (token job.setting due place)
      (calculatorEntry job.setting { offset := place } ⟨.calculator, due⟩).state := by
  have hshows := ByteCode.entry_shows (s := job.setting) (c := { offset := place }) due hp.base
    (Int.le_trans hle hfit)
  exact hp.parses_single hfit hle nofun (before_inside (hp.isSome hfit hle) _)
    (congrArg List.singleton hshows.item) hshows.reads

theorem Stands.parses_numbers {n : Nat} (hp : Stands job.setting last p place ⟨.calculator, n⟩)
    (hfit : last ≤ job.setting.image.last) :
    Parses job pages last p (numbers job.setting last n place) ⟨.calculator, 0⟩ := by
  induction n generalizing p place with
  | zero => exact hp.parses_nil
  | succ n ih =>
      unfold numbers
      split
      · have hone : Parses job pages last p (token job.setting (n + 1) place) ⟨.calculator, n⟩ :=
          hp.parses_token hfit ‹_›
        exact hone.append fun p' hp' => ih hp'
      · exact hp.parses_behind ‹_› _

theorem Stands.parses_operation (hp : Stands job.setting last p place ⟨.calculator, 0⟩)
    (hfit : last ≤ job.setting.image.last) (hle : place ≤ last) :
    let code := job.setting.image.byteAt place
    Parses job pages last p (token job.setting 0 place)
      ⟨if code = 0x38 ∨ code = 0x33 then .idle else .calculator, operands code⟩ := by
  intro code
  have hone : Parses job pages last p (token job.setting 0 place)
      (calculatorEntry job.setting { offset := place } ⟨.calculator, 0⟩).state :=
    hp.parses_token hfit hle
  obtain ⟨hgoes, hpending⟩ := Calculator.entry_operation job.setting { offset := place }
  rw [calculatorEntry_state, hpending] at hone
  by_cases hend : code = 0x38 ∨ code = 0x33
  · rw [if_pos hend]
    rwa [if_neg fun h => hgoes.1 h hend] at hone
  · rw [if_neg hend]
    rwa [if_pos (hgoes.2 hend)] at hone

theorem Stands.parses_program (hp : Stands job.setting last p place ⟨.calculator, 0⟩)
    (hfit : last ≤ job.setting.image.last) :
    Parses job pages last p (program job.setting last place) {} := by
  fun_induction program job.setting last place generalizing p with
  | case1 place hin operation code =>
      rename_i hend
      have hone : Parses job pages last p operation
          ⟨if code = 0x38 ∨ code = 0x33 then .idle else .calculator, operands code⟩ :=
        hp.parses_operation hfit hin.1
      rwa [if_pos hend, Calculator.operands_of_ends hend] at hone
  | case2 place hin operation code hgoes literals rest =>
      rename_i ih
      have hone : Parses job pages last p operation
          ⟨if code = 0x38 ∨ code = 0x33 then .idle else .calculator, operands code⟩ :=
        hp.parses_operation hfit hin.1
      rw [if_neg hgoes] at hone
      exact hone.append fun p₁ hp₁ => (hp₁.parses_numbers hfit).append fun p₂ hp₂ => ih hp₂
  | case3 place hout =>
      exact hp.parses_behind (fun hle => hout ⟨hle, hp.isSome hfit hle⟩) _

theorem Stands.parses_payload {kind : Option Payload}
    (hp : Stands job.setting last p place (awaiting kind)) (hfit : last ≤ job.setting.image.last) :
    Parses job pages last p (payload job.setting last kind place) {} := by
  unfold payload
  split
  · have hin := hp.isSome hfit ‹_›
    cases kind with
    | none => exact hp.parses_nil
    | some kind =>
        cases kind with
        | errorCode =>
            exact hp.parses_single hfit ‹_› nofun (before_inside hin _)
              (congrArg List.singleton (errorCode_item ..)) (errorCode_reads ..)
        | program => exact hp.parses_program hfit
        | routine =>
            exact hp.parses_single hfit ‹_› nofun (before_inside hin _)
              (congrArg List.singleton (routineAddress_item hp.base)) (routineAddress_reads ..)
  · exact hp.parses_behind ‹_› _

/-! ## Phrases -/

section

variable {q : Processor} (hcpu : job.cpu = q.instructionSet)
include hcpu

/-- In the idle mode, one step lists the instruction at the place, and the pass awaits what the
instruction calls for. -/
theorem Stands.parses_instruction (hp : Stands job.setting last p place {})
    (hfit : last ≤ job.setting.image.last) (hle : place ≤ last) :
    let d := q.instructionSet.decode job.setting { offset := place }
    let kind := payload? pages job.setting.options d.item
    Parses job pages last p
      ⟨[{ d.item with remark := (kind.map fun p => (p.remark : Text)) <|> d.item.remark }],
        d.cursor.offset⟩ (awaiting kind) := by
  intro d kind
  have hin := hp.isSome hfit hle
  have hdecode : job.cpu.decode job.setting p.cursor = d := by
    rw [hcpu, q.sound.decode_place job.setting (hp.sound hle), hp.offset]
  have hdeclined : (extension pages).before job.setting p.cursor p.state =
      { handled := false, state := p.state, cursor := p.cursor } := by
    rw [← hp.offset] at hin
    rw [hp.state hle]
    exact before_inside hin {}
  have hplain : (job.cpu.decode job.setting p.cursor).item.hasLabel = false := by
    rw [hcpu]
    exact (q.sound.decode_frame job.setting _).2
  have hafter : (extension pages).after job.setting d.item p.state =
      after pages job.setting d.item {} := by
    rw [hp.state hle]
    rfl
  obtain ⟨hcursor, hstate, hlines⟩ := Pass.codeStep_declined hdeclined hplain
  obtain ⟨hawaits, hremark⟩ := after_awaiting pages job.setting d.item
  obtain ⟨n, hpos, -, hreads⟩ := q.sound.decode_reads job.setting { offset := place }
  rw [hdecode, hafter] at hstate hlines
  rw [hremark] at hlines
  refine hp.parses_codeStep hfit hle hpos hreads rfl rfl ?_ (hstate.trans hawaits) hlines
  rw [hcursor, hdecode]
  exact ⟨(Int.add_zero _).symm, rfl⟩

/-- From a pass that stands at a place with nothing due, the phrases of the place are listed. -/
theorem Stands.lists_phrases (hp : Stands job.setting last p place {})
    (hfit : last ≤ job.setting.image.last) :
    Lists job (extension pages) last p
      (p.output.lines ++ phrases job.setting last q pages place) := by
  fun_induction phrases job.setting last q pages place generalizing p with
  | case1 place hin d kind follow =>
      rename_i ih
      obtain ⟨p', hphrase, hp'⟩ := (hp.parses_instruction hcpu hfit hin.1).append
        fun p' hp' => hp'.parses_payload hfit
      have hrest := ih hp'
      rw [hphrase.lines, List.append_assoc] at hrest
      exact hphrase.goesOn _ hrest
  | case2 place hout =>
      have hlt : last < p.cursor.offset := by
        rw [hp.offset]
        exact Int.not_le.1 fun hle => hout ⟨hle, hp.isSome hfit hle⟩
      rw [List.append_nil]
      exact lists_of_lt hlt

/-! ## Parts -/

theorem codePart_lines (p : Pass State) {r : Region} (hbase : job.setting.image.base ≤ r.first)
    (hlast : r.last ≤ job.setting.image.last) :
    (p.codePart job (extension pages) r).output.lines =
      p.output.lines ++ phrases job.setting r.last q pages r.first := by
  let entered : Pass State := { p with state := (enter r p.state).1 }
  let start : Pass State := (entered.note (enter r p.state).2).seek r
  have hstart : Stands job.setting r.last start r.first {} :=
    ⟨rfl, hbase, nofun, fun _ => rfl⟩
  have hlength : r.length = r.last - r.first + 1 := rfl
  have hle := r.first_le_last
  have hfuel : (r.last : Int) < start.cursor.offset + r.length := by
    rw [hstart.offset]
    omega
  exact (Output.lines_fixup _).trans (hstart.lists_phrases hcpu hlast r.length hfuel)

end

theorem customPart_lines (p : Pass State) (r : Region) :
    (p.customPart job (extension pages) r).output.lines =
      p.output.lines ++ (entries job.setting r.last r.length 0 { offset := r.first }).items := by
  have hstart : Cursor.Meets 0 { offset := r.first } (p.seek r).cursor :=
    ⟨(Int.add_zero _).symm, rfl⟩
  obtain ⟨hitems, -⟩ := entries_meets hstart job.setting r.last r.length 0
  rw [Setting.move_zero, Int.add_zero] at hitems
  have hplain : ∀ item ∈ (custom job.setting r (p.seek r).cursor p.state).items,
      item.hasLabel = false := entries_plain job.setting r.last r.length 0 _
  have hlines := Pass.lines_absorb (p.seek r) hplain
  exact (Output.lines_fixup _).trans (hlines.trans (congrArg (p.output.lines ++ ·) hitems))

/-- What a part lists: code its phrases, a custom region calculator entries, and any other what it
lists without an extension. -/
def lines (q : Processor) (pages : Pages) (s : Setting) (r : Region) : List Item :=
  match r.kind with
  | .code => phrases s r.last q pages r.first
  | .custom => (entries s r.last r.length 0 { offset := r.first }).items
  | .bytes | .words | .gap => q.instructionSet.lines s r

theorem part_lines {q : Processor} (hcpu : job.cpu = q.instructionSet) (p : Pass State)
    {r : Region} (hbase : job.setting.image.base ≤ r.first)
    (hlast : r.last ≤ job.setting.image.last) :
    (p.part job (extension pages) r).output.lines =
      p.output.lines ++ lines q pages job.setting r := by
  have hdata : r.kind ≠ .code →
      ∀ item ∈ q.instructionSet.lines job.setting r, item.hasLabel = false :=
    fun hk item hi => (InstructionSet.isData_lines hk item hi).1
  unfold Pass.part lines
  unfold InstructionSet.lines at hdata ⊢
  dsimp only
  rw [hcpu]
  cases hk : r.kind with
  | code => exact codePart_lines hcpu (p.note [.part r]) hbase hlast
  | custom => exact customPart_lines (p.note [.part r]) r
  | bytes | words | gap =>
      rw [hk] at hdata
      exact p.output.lines_addAll_of_plain (hdata nofun)

theorem parts_lines {q : Processor} (hcpu : job.cpu = q.instructionSet) {rs : List Region}
    (hrs : ∀ r ∈ rs, job.setting.image.base ≤ r.first ∧ r.last ≤ job.setting.image.last)
    (p : Pass State) : (rs.foldl (Pass.part job (extension pages)) p).output.lines =
      p.output.lines ++ rs.flatMap (lines q pages job.setting) :=
  Pass.parts_lines (fun r hr p => part_lines hcpu p (hrs r hr).1 (hrs r hr).2) p

/-! ## Runs -/

/-- A run under the conventions of the Spectrum ROMs, whatever the pages, lists of every part what
the grammar lists of it, code as phrases; an output is there whenever the range meets the image in
the address space. And a step that ends the calculator mode leaves no number due. -/
theorem run_parses_phrases (q : Processor) (pages : Pages) (map : MemoryMap) (s : Setting)
    (first last : Int) (hbase : 0 ≤ s.image.base)
    (hrange : max first s.image.base ≤ min last (min s.image.last 0xFFFF)) :
    let job : Job := ⟨q.instructionSet, map, s⟩
    (∃ o window, (job.run (extension pages) {} first last).output = some o ∧
      job.window first last = some window ∧
      (window.first : Int) = max first s.image.base ∧
      (window.last : Int) = min last (min s.image.last 0xFFFF) ∧
      o.lines = (job.parts window).flatMap (lines q pages s)) ∧
    ∀ c st, st.mode = .calculator → (before s c st).state.mode ≠ .calculator →
      (before s c st).state.pending = 0 := by
  intro job
  exact ⟨job.run_lists (extension pages) {} first last q.sound.mask hbase hrange
    fun r hr hr' p => part_lines rfl p hr hr', fun c st => before_pending s c⟩

/-- The codes of `end-calc` and `jump` are no operations inside a number. The same bytes in another
page are listed under its conventions: an address follows the call, or nothing follows anything. -/
theorem run_parses_phrases_paged :
    let s (base : Nat) (page : Option Int) : Setting :=
      { image :=
          { base := base, bytes := #[0xEF, 0x34, 0x38, 0x33, 0x38, 0xCF, 0x05, 0xC9] }
        options := { romPage := page } }
    let job (base : Nat) (page : Option Int) : Job :=
      ⟨Processor.z80.instructionSet, .ofList [.span 0 0xFFFF .code], s base page⟩
    let lists (base : Nat) (page : Option Int) (opcodes : List (List UInt8)) : Prop :=
      ∃ o window, ((job base page).run (extension .spectrum128) {} 0 0xFFFF).output = some o ∧
        o.lines.map (·.opcodes) = opcodes ∧
        (job base page).window 0 0xFFFF = some window ∧
        o.lines = ((job base page).parts window).flatMap (lines .z80 .spectrum128 (s base page))
    let called : List (List UInt8) := [[0xEF], [0x34], [0x38, 0x33], [0x38], [0xCF], [0x05], [0xC9]]
    let routine : List (List UInt8) := [[0xEF], [0x34, 0x38], [0x33], [0x38, 0xCF], [0x05], [0xC9]]
    let plain : List (List UInt8) := [[0xEF], [0x34], [0x38, 0x33], [0x38, 0xCF], [0x05], [0xC9]]
    lists 0x4000 none called ∧ lists 0x4000 (some (-1)) called ∧ lists 0xC000 (some 1) called ∧
      lists 0x4000 (some 0) routine ∧ lists 0 none routine ∧
      lists 0x4000 (some 7) plain ∧ lists 0xC000 none plain := by
  intro s job lists called routine plain
  have hlists {base : Nat} {page : Option Int} {opcodes : List (List UInt8)}
      (hbase : base ≤ 0xC000)
      (hopcodes : ((job base page).run (extension .spectrum128) {} 0 0xFFFF).output.map
        (·.lines.map (·.opcodes)) = some opcodes) : lists base page opcodes := by
    have hlast : (s base page).image.last = base + 7 := by
      show (base : Int) + 8 - 1 = base + 7
      omega
    obtain ⟨⟨o, window, ho, hwindow, -, -, hlines⟩, -⟩ := run_parses_phrases .z80 .spectrum128
      (.ofList [.span 0 0xFFFF .code]) (s base page) 0 0xFFFF (Int.natCast_nonneg base) (by
        rw [hlast]
        show max 0 (base : Int) ≤ _
        omega)
    rw [show ((job base page).run (extension .spectrum128) {} 0 0xFFFF).output = some o from ho]
      at hopcodes
    exact ⟨o, window, ho, Option.some_inj.1 hopcodes, hwindow, hlines⟩
  refine ⟨hlists ?_ ?_, hlists ?_ ?_, hlists ?_ ?_, hlists ?_ ?_, hlists ?_ ?_, hlists ?_ ?_,
    hlists ?_ ?_⟩ <;> decide +kernel

end RomListing.Spectrum

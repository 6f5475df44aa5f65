import Mathlib.Logic.Function.Iterate
import RomListing.Proofs.Pass.Steps
import RomListing.Proofs.Pass.Tiling

/-! # Progress over code

Whatever an extension does, it only reads bytes. A step over code at a place in the image then moves
the cursor: the extension reads a byte, or it reads none and the instruction there is read. So the
steps over a part come to an end without any help from the fuel.
-/

namespace RomListing

/-- From `bound` rounds on, further rounds change nothing: the loop has stopped by itself. -/
structure EndsWithin {α : Type} (loop : Nat → α) (stopped : α → Prop) (bound : Nat) : Prop where
  stays : ∀ fuel, bound ≤ fuel → loop fuel = loop bound
  stopped : stopped (loop bound)

/-- The extension reads bytes where it takes over and moves nothing where it does not. If it takes
over without a byte it lists nothing, and it never warns. -/
structure Extension.Reading {σ : Type} (ext : Extension σ) : Prop where
  before_reads : ∀ s c st, ∃ n, Cursor.Reads s c n (ext.before s c st).cursor
  before_declined : ∀ s c st, (ext.before s c st).handled = false → (ext.before s c st).cursor = c
  before_idle : ∀ {s : Setting} {c : Cursor} st, s.image.base ≤ c.offset →
    c.offset ≤ s.image.last → (ext.before s c st).handled = true →
    (ext.before s c st).cursor.offset = c.offset →
    (ext.before s c st).items = [] ∧ (ext.before s c st).references = []
  before_quiet : ∀ s c st, ∀ notice ∈ (ext.before s c st).notices, notice.level ≠ .warning
  after_quiet : ∀ s item st, ∀ notice ∈ (ext.after s item st).notices, notice.level ≠ .warning

namespace Pass

variable {σ : Type} {job : Job} {ext : Extension σ} {p p' : Pass σ}

def GoesOn (last : Int) (p : Pass σ) : Prop := p.cursor.offset ≤ last ∧ p.cursor.overflow = false

instance (last : Int) (p : Pass σ) : Decidable (p.GoesOn last) :=
  inferInstanceAs (Decidable (_ ∧ _))

/-- The extension takes the next step over and leaves the cursor where it is. -/
def Idle (job : Job) (ext : Extension σ) (p : Pass σ) : Prop :=
  let step := ext.before job.setting p.cursor p.state
  step.handled = true ∧ step.cursor.offset = p.cursor.offset

instance (job : Job) (ext : Extension σ) (p : Pass σ) : Decidable (p.Idle job ext) :=
  inferInstanceAs (Decidable (_ ∧ _))

/-- A step over code leads from `p` to `p'`: it moves the cursor, and warns exactly if the extension
idles; then the instruction at the cursor is read and shown to the extension. -/
structure Iteration (job : Job) (ext : Extension σ) (p p' : Pass σ) : Prop where
  moves : p.cursor.offset < p'.cursor.offset
  warns : ∃ notices, p'.notices.toList = p.notices.toList ++ notices ∧
    notices.filter (·.level = .warning) =
      if p.Idle job ext then [.idle p.cursor.offset] else []
  decodes : p.Idle job ext →
    let d := job.cpu.decode job.setting { offset := p.cursor.offset }
    let v := ext.after job.setting d.item (ext.before job.setting p.cursor p.state).state
    p'.cursor = d.cursor ∧ p'.state = v.state ∧
      p'.output = (p.output.refer d.references).add
        { d.item with remark := v.remark <|> d.item.remark }

/-! ## Single steps -/

theorem decodeStep_notices (job : Job) (ext : Extension σ) (p : Pass σ) :
    (p.decodeStep job ext).notices.toList = p.notices.toList ++
      (ext.after job.setting (job.cpu.decode job.setting p.cursor).item p.state).notices := by
  simp [decodeStep]

/-- As long as no byte was missing, the instruction at the place of the cursor is read. -/
theorem decodeStep_place (ext : Extension σ) {a : Alphabet} {longest : Nat}
    (h : job.cpu.Sound a longest) (ho : p.cursor.overflow = false) :
    let d := job.cpu.decode job.setting { offset := p.cursor.offset }
    let v := ext.after job.setting d.item p.state
    (p.decodeStep job ext).cursor = d.cursor ∧ (p.decodeStep job ext).state = v.state ∧
      (p.decodeStep job ext).output = (p.output.refer d.references).add
        { d.item with remark := v.remark <|> d.item.remark } := by
  unfold decodeStep
  rw [h.decode_place job.setting ho]
  exact ⟨rfl, rfl, rfl⟩

/-- Reading an instruction in the image moves the cursor over it. -/
theorem decodeStep_moves (ext : Extension σ) {a : Alphabet} {longest : Nat}
    (h : job.cpu.Sound a longest) (hbase : job.setting.image.base ≤ p.cursor.offset)
    (hlast : p.cursor.offset ≤ job.setting.image.last) (ho : p.cursor.overflow = false) :
    p.cursor.offset < (p.decodeStep job ext).cursor.offset ∧
      ((p.decodeStep job ext).cursor.overflow = true →
        job.setting.image.last < (p.decodeStep job ext).cursor.offset) := by
  obtain ⟨hbytes, -, hoffset, hend⟩ := h.decode_within (s := job.setting) hbase hlast
  rw [(decodeStep_place ext h ho).1]
  exact ⟨by omega, hend⟩

section

variable {a : Alphabet} {longest : Nat} (h : job.cpu.Sound a longest) (hx : ext.Reading)
  (hbase : job.setting.image.base ≤ p.cursor.offset)
  (hlast : p.cursor.offset ≤ job.setting.image.last) (ho : p.cursor.overflow = false)
include h hx hbase hlast ho

omit h in
/-- What the extension does stays with it unless it idles: then it has met no missing byte. -/
theorem before_idle_iff (hhandled : (ext.before job.setting p.cursor p.state).handled = true) :
    p.Idle job ext ↔ (ext.before job.setting p.cursor p.state).cursor.offset = p.cursor.offset ∧
      (ext.before job.setting p.cursor p.state).cursor.overflow = false := by
  obtain ⟨n, hreads⟩ := hx.before_reads job.setting p.cursor p.state
  refine ⟨fun hidle => ⟨hidle.2, ?_⟩, fun hstalls => ⟨hhandled, hstalls.1⟩⟩
  have hoffset := hreads.offset
  have havailable := Image.available_eq_min hbase n
  have hstays := hidle.2
  rw [hreads.overflow, ho, Bool.false_or, decide_eq_false_iff_not]
  omega

/-- A step at a place in the image is an iteration, and only behind the image it overflows. -/
theorem codeStep_iteration :
    p.Iteration job ext (p.codeStep job ext) ∧
      ((p.codeStep job ext).cursor.overflow = true →
        job.setting.image.last < (p.codeStep job ext).cursor.offset) := by
  let step := ext.before job.setting p.cursor p.state
  let absorbed : Pass σ := { p with started := p.started + 1 }.absorb step
  obtain ⟨n, hreads⟩ := hx.before_reads job.setting p.cursor p.state
  have hquiet : step.notices.filter (·.level = .warning) = [] := by
    simpa using hx.before_quiet job.setting p.cursor p.state
  have hquiet' (item : Item) (st : σ) :
      (ext.after job.setting item st).notices.filter (·.level = .warning) = [] := by
    simpa using hx.after_quiet job.setting item st
  have hnotices : absorbed.notices.toList = p.notices.toList ++ step.notices := by
    simp [absorbed, absorb]
  by_cases hidle : p.Idle job ext
  · have hstalls := (before_idle_iff hx hbase hlast ho hidle.1).1 hidle
    obtain ⟨hitems, hreferences⟩ := hx.before_idle p.state hbase hlast hidle.1 hidle.2
    let warned := absorbed.note [.idle p.cursor.offset]
    have hoffset : warned.cursor.offset = p.cursor.offset := hidle.2
    have hmoves := decodeStep_moves ext h (p := warned) (hoffset ▸ hbase) (hoffset ▸ hlast)
      hstalls.2
    have hdecoded := decodeStep_place ext h (p := warned) hstalls.2
    have houtput : warned.output = p.output := by
      show (p.output.addAll step.items).refer step.references = p.output
      rw [show step.items = [] from hitems, show step.references = [] from hreferences]
      rfl
    have hwarned : warned.notices.toList =
        p.notices.toList ++ (step.notices ++ [.idle p.cursor.offset]) := by
      show (absorbed.notices ++ _).toList = _
      rw [Array.toList_append, hnotices, List.append_assoc]
    rw [hoffset] at hmoves
    rw [codeStep_stalls hidle.1 hstalls]
    refine ⟨⟨hmoves.1, ?_, fun _ => ?_⟩, hmoves.2⟩
    · rw [decodeStep_notices, hwarned, List.append_assoc]
      refine ⟨_, rfl, ?_⟩
      rw [if_pos hidle, List.filter_append, List.filter_append, hquiet, hquiet']
      rfl
    · rwa [hoffset, houtput] at hdecoded
  cases hhandled : step.handled with
  | true =>
      -- the extension has read something
      have hgoes := mt (before_idle_iff hx hbase hlast ho hhandled).2 hidle
      have hle : p.cursor.offset ≤ step.cursor.offset := hreads.offset_le
      have hne : step.cursor.offset ≠ p.cursor.offset := fun heq => hidle ⟨hhandled, heq⟩
      rw [codeStep_takes hhandled hgoes]
      refine ⟨⟨Int.lt_iff_le_and_ne.2 ⟨hle, hne.symm⟩, ⟨step.notices, hnotices, ?_⟩,
        fun hi => absurd hi hidle⟩, hreads.last_lt hbase ho⟩
      rw [if_neg hidle, hquiet]
  | false =>
      have hcursor : absorbed.cursor = p.cursor := hx.before_declined _ _ _ hhandled
      have hmoves := decodeStep_moves ext h (p := absorbed) (hcursor ▸ hbase) (hcursor ▸ hlast)
        (hcursor ▸ ho)
      rw [hcursor] at hmoves
      rw [codeStep_declines hhandled]
      refine ⟨⟨hmoves.1, ?_, fun hi => absurd hi hidle⟩, hmoves.2⟩
      rw [decodeStep_notices, hnotices, List.append_assoc]
      refine ⟨_, rfl, ?_⟩
      rw [if_neg hidle, List.filter_append, hquiet, hquiet']
      rfl

end

/-! ## The loop -/

/-- The loop takes steps, at most one for each address that is left, until it stands behind `last`.
What is left of the fuel then does not count. -/
structure Finishes (job : Job) (ext : Extension σ) (last : Int) (p : Pass σ) (n : Nat) : Prop where
  iterates : ∀ k < n, ((codeStep job ext)^[k] p).GoesOn last ∧
    ((codeStep job ext)^[k] p).Iteration job ext ((codeStep job ext)^[k + 1] p)
  behind : last < ((codeStep job ext)^[n] p).cursor.offset
  result : ∀ fuel, n ≤ fuel → codeLoop job ext last fuel p = (codeStep job ext)^[n] p

theorem Finishes.zero {last : Int} (hbehind : last < p.cursor.offset) :
    Finishes job ext last p 0 := by
  refine ⟨nofun, hbehind, fun fuel _ => ?_⟩
  cases fuel with
  | zero => rfl
  | succ fuel =>
      rw [codeLoop, if_neg fun hgoes => absurd hgoes.1 (Int.not_le.2 hbehind)]
      rfl

theorem Finishes.succ {last : Int} {n : Nat} (hgoes : p.GoesOn last)
    (hstep : p.Iteration job ext (p.codeStep job ext))
    (hrest : Finishes job ext last (p.codeStep job ext) n) :
    Finishes job ext last p (n + 1) := by
  refine ⟨fun k hk => ?_, hrest.behind, fun fuel hfuel => ?_⟩
  · cases k with
    | zero => exact ⟨hgoes, hstep⟩
    | succ k => exact hrest.iterates k (Nat.lt_of_succ_lt_succ hk)
  · cases fuel with
    | zero => omega
    | succ fuel =>
        rw [codeLoop, if_pos ⟨hgoes.1, hgoes.2⟩]
        exact hrest.result fuel (Nat.le_of_succ_le_succ hfuel)

/-- The measure is the number of addresses that are left: every step lowers it, and the mark that
ends the loop as well is only set behind the image. -/
theorem codeLoop_finishes {a : Alphabet} {longest : Nat} (h : job.cpu.Sound a longest)
    (hx : ext.Reading) {last : Int} (hfit : last ≤ job.setting.image.last) {left : Nat}
    {p : Pass σ} (hbase : job.setting.image.base ≤ p.cursor.offset)
    (hover : p.cursor.overflow = true → job.setting.image.last < p.cursor.offset)
    (hleft : last + 1 ≤ p.cursor.offset + left) : ∃ n ≤ left, Finishes job ext last p n := by
  induction left generalizing p with
  | zero => exact ⟨0, Nat.le_refl 0, .zero (by omega)⟩
  | succ left ih =>
      by_cases hin : p.cursor.offset ≤ last
      · have hlast := Int.le_trans hin hfit
        have ho : p.cursor.overflow = false :=
          Bool.eq_false_iff.2 fun ho => absurd (hover ho) (Int.not_lt.2 hlast)
        obtain ⟨hstep, hover'⟩ := codeStep_iteration h hx hbase hlast ho
        have hmoves := hstep.moves
        obtain ⟨n, hn, hrest⟩ := ih (p := p.codeStep job ext) (by omega) hover' (by omega)
        exact ⟨n + 1, Nat.succ_le_succ hn, .succ ⟨hin, ho⟩ hstep hrest⟩
      · exact ⟨0, Nat.zero_le _, .zero (Int.not_le.1 hin)⟩

end Pass

end RomListing

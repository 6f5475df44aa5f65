import Mathlib.Data.List.Basic
import RomListing.Proofs.Extended.Conventions
import RomListing.Proofs.Pass.CrossReference

/-! # Where a pass depends on the instructions that are recognised

Two passes over one image, of which one recognises the instructions of the Spectrum Next, go
together instruction by instruction until there is one of these. From there on to the end of the
part each may take other bytes for instructions. The next part finds both at its start again.
-/

namespace RomListing

def Job.allow (job : Job) (next : Bool) : Job := { job with setting := job.setting.allow next }

/-! ## Passes under any conventions -/

namespace Pass

variable {σ : Type} {ext : Extension σ} {job : Job} {next : Bool}

theorem decodeStep_allow (hx : ext.Unaware) {p : Pass σ}
    (h : job.cpu.decode (job.setting.allow next) p.cursor = job.cpu.decode job.setting p.cursor) :
    p.decodeStep (job.allow next) ext = p.decodeStep job ext := by
  unfold decodeStep
  simp only [Job.allow, h, hx.after]

/-- A step is the same if the instruction that is read where the extension leaves the cursor is. -/
theorem codeStep_allow (job : Job) (hx : ext.Unaware) {p : Pass σ}
    (h : job.cpu.decode (job.setting.allow next)
        (ext.before job.setting p.cursor p.state).cursor =
      job.cpu.decode job.setting (ext.before job.setting p.cursor p.state).cursor) :
    p.codeStep (job.allow next) ext = p.codeStep job ext := by
  have hbefore : ext.before (job.allow next).setting p.cursor p.state =
      ext.before job.setting p.cursor p.state := hx.before _ _ _ _
  unfold codeStep
  simp only [hbefore]
  split
  · split
    · exact decodeStep_allow hx h
    · rfl
  · exact decodeStep_allow hx h

/-- Data is listed alike, so that a part is listed alike if code is. -/
theorem part_allow (hx : ext.Unaware) {r : Region}
    (hcode : r.kind = .code → ∀ p : Pass σ, p.cursor.offset = r.first → p.cursor.overflow = false →
      codeLoop (job.allow next) ext r.last r.length p = codeLoop job ext r.last r.length p)
    (p : Pass σ) : p.part (job.allow next) ext r = p.part job ext r := by
  unfold part
  cases hk : r.kind with
  | code =>
      unfold codePart
      exact congrArg Pass.fixup (hcode hk _ rfl rfl)
  | bytes | words | gap => rfl
  | custom =>
      unfold customPart
      simp only [Job.allow, hx.custom]
      rfl

end Pass

namespace Job

variable {σ : Type} {ext : Extension σ} {next : Bool} {first last : Int}

theorem run_allow (job : Job) (hx : ext.Unaware) (state : σ)
    (hcode : ∀ window, job.window first last = some window → ∀ r ∈ job.parts window,
      r.kind = .code → ∀ p : Pass σ, p.cursor.offset = r.first → p.cursor.overflow = false →
        Pass.codeLoop (job.allow next) ext r.last r.length p =
          Pass.codeLoop job ext r.last r.length p) :
    (job.allow next).run ext state first last = job.run ext state first last := by
  have hwindow : (job.allow next).window first last = job.window first last := rfl
  unfold run
  rw [hwindow]
  cases hw : job.window first last with
  | none => rfl
  | some window =>
      have hparts : ((job.allow next).parts window).foldl (Pass.part (job.allow next) ext)
          { cursor := { offset := 0 }, state := state } =
            (job.parts window).foldl (Pass.part job ext)
              { cursor := { offset := 0 }, state := state } :=
        List.foldl_ext _ _ _ fun p r hr => Pass.part_allow hx (hcode window hw r hr) p
      dsimp only
      rw [hparts]
      rfl

end Job

/-! ## Z80 -/

namespace Z80

variable {s : Setting}

/-- The instructions of a part are the same up to the first of the Spectrum Next, and all of them if
there is none. -/
theorem walk_allow (s : Setting) (last : Int) (fuel : Nat) (place : Int) :
    let on := instructionSet.walk (s.allow true) last fuel place
    let off := instructionSet.walk (s.allow false) last fuel place
    on.takeWhile (!·.startsNext) = off.takeWhile (!·.startsNext) ∧
      ((∀ item ∈ off, item.startsNext = false) → on = off) := by
  induction fuel generalizing place with
  | zero => exact ⟨rfl, fun _ => rfl⟩
  | succ fuel ih =>
      by_cases hle : place ≤ last
      · rw [InstructionSet.walk_succ hle, InstructionSet.walk_succ hle]
        by_cases hnext : NextAt s.image place
        · have hstarts (next : Bool) :
              (instructionSet.decode (s.allow next) { offset := place }).item.startsNext = true :=
            (startsNext_decode _ _).2 hnext
          refine ⟨?_, fun hnone => ?_⟩
          · rw [List.takeWhile_cons_of_neg (by simp [hstarts]),
              List.takeWhile_cons_of_neg (by simp [hstarts])]
          · have hfirst := hnone _ List.mem_cons_self
            rw [hstarts] at hfirst
            cases hfirst
        · rw [decode_allow (c := { offset := place }) hnext,
            decode_allow (c := { offset := place }) hnext]
          have hplain : (instructionSet.decode s { offset := place }).item.startsNext = false :=
            Bool.eq_false_iff.2 (mt (startsNext_decode _ _).1 hnext)
          obtain ⟨hcommon, hall⟩ := ih (instructionSet.decode s { offset := place }).cursor.offset
          refine ⟨?_, fun hnone => congrArg (_ :: ·) ?_⟩
          · rw [List.takeWhile_cons_of_pos (by simp [hplain]),
              List.takeWhile_cons_of_pos (by simp [hplain])]
            split
            · rfl
            · rw [hcommon]
          · have hrest := fun item hi => hnone item (List.mem_cons_of_mem _ hi)
            split
            · rfl
            · rename_i hgoes
              rw [if_neg hgoes] at hrest
              exact hall hrest
      · rw [InstructionSet.walk_of_lt (by omega), InstructionSet.walk_of_lt (by omega)]
        exact ⟨rfl, fun _ => rfl⟩

theorem codeLoop_allow (map : MemoryMap) (last : Int) (fuel : Nat) (p : Pass Unit)
    (h : p.cursor.overflow = false →
      ∀ item ∈ instructionSet.walk (s.allow false) last fuel p.cursor.offset,
        item.startsNext = false) :
    Pass.codeLoop ⟨instructionSet, map, s.allow true⟩ .absent last fuel p =
      Pass.codeLoop ⟨instructionSet, map, s.allow false⟩ .absent last fuel p := by
  let job : Job := ⟨instructionSet, map, s.allow false⟩
  induction fuel generalizing p with
  | zero => rfl
  | succ fuel ih =>
      unfold Pass.codeLoop
      by_cases hgoes : p.cursor.offset ≤ last ∧ p.cursor.overflow = false
      · have hplain := h hgoes.2
        rw [InstructionSet.walk_succ hgoes.1, List.forall_mem_cons] at hplain
        obtain ⟨hfirst, hrest⟩ := hplain
        have hnext : ¬NextAt s.image p.cursor.offset := fun hat => by
          have hstarts := (startsNext_decode (s.allow false) { offset := p.cursor.offset }).2 hat
          exact Bool.eq_false_iff.1 hfirst hstarts
        have hstep : p.codeStep (job.allow true) .absent = p.codeStep job .absent :=
          Pass.codeStep_allow job Extension.absent_unaware
            ((decode_allow hnext true).trans (decode_allow hnext false).symm)
        have hcursor : (p.codeStep job .absent).cursor =
            (job.cpu.decode job.setting { offset := p.cursor.offset }).cursor :=
          (Pass.codeStep_extends sound p hgoes.2).2
        rw [if_pos hgoes, if_pos hgoes]
        refine (congrArg _ hstep).trans (ih (p.codeStep job .absent) fun ho => ?_)
        rw [hcursor] at ho ⊢
        rw [if_neg (Bool.eq_false_iff.1 ho)] at hrest
        exact hrest
      · rw [if_neg hgoes, if_neg hgoes]

/-- Data has nothing to do with the option, and code has up to the first instruction that is not
known without it. -/
theorem lines_allow (s : Setting) (r : Region) :
    let on := instructionSet.lines (s.allow true) r
    let off := instructionSet.lines (s.allow false) r
    if r.kind = .code then
      on.takeWhile (!·.startsNext) = off.takeWhile (!·.startsNext) ∧
        ((∀ item ∈ off, item.startsNext = false) → on = off)
    else on = off := by
  intro on off
  cases hk : r.kind with
  | code =>
      have hwalk (next : Bool) : instructionSet.lines (s.allow next) r =
          instructionSet.walk (s.allow next) r.last r.length r.first := by
        unfold InstructionSet.lines
        rw [hk]
      rw [if_pos rfl, show on = _ from hwalk true, show off = _ from hwalk false]
      exact walk_allow s r.last r.length r.first
  | bytes | words | gap | custom =>
      rw [if_neg nofun]
      unfold on off InstructionSet.lines
      rw [hk]
      rfl

/-- Where nothing that is listed without the option begins like an instruction of the Spectrum Next,
a pass does the same with it. -/
theorem run_allow (s : Setting) (map : MemoryMap) {first last : Int} {o : Output}
    (ho : ((⟨instructionSet, map, s.allow false⟩ : Job).run .absent () first last).output = some o)
    (hnone : ∀ item ∈ o.items.toList, item.startsNext = false) :
    (⟨instructionSet, map, s.allow true⟩ : Job).run .absent () first last =
      (⟨instructionSet, map, s.allow false⟩ : Job).run .absent () first last := by
  let job : Job := ⟨instructionSet, map, s.allow false⟩
  obtain ⟨window, hwindow, hextends⟩ := Job.run_extends sound ho
  have hlines : o.lines = (job.parts window).flatMap (instructionSet.lines (s.allow false)) :=
    hextends.lines
  have hplain : ∀ r ∈ job.parts window, ∀ item ∈ instructionSet.lines (s.allow false) r,
      item.startsNext = false := by
    intro r hr item hi
    have hlisted : item ∈ o.lines := hlines ▸ List.mem_flatMap_of_mem hr hi
    obtain ⟨flagged, hflagged, rfl⟩ := List.mem_map.1 hlisted
    exact hnone flagged hflagged
  refine Job.run_allow job Extension.absent_unaware () fun w hw r hr hk p hplace _ => ?_
  obtain rfl : window = w := Option.some.inj (hwindow.symm.trans hw)
  refine codeLoop_allow map r.last r.length p fun _ item hi => hplain r hr item ?_
  unfold InstructionSet.lines
  rw [hk]
  exact hplace ▸ hi

end Z80

/-! ## 6502 -/

/-- The option counts for nothing on the 6502, whatever the conventions. -/
theorem Mos6502.run_allow {σ : Type} {ext : Extension σ} (hx : ext.Unaware) (map : MemoryMap)
    (s : Setting) (next : Bool) (state : σ) (first last : Int) :
    (⟨instructionSet, map, s.allow next⟩ : Job).run ext state first last =
      (⟨instructionSet, map, s⟩ : Job).run ext state first last := by
  have hloop (last : Int) (fuel : Nat) (p : Pass σ) :
      Pass.codeLoop ⟨instructionSet, map, s.allow next⟩ ext last fuel p =
        Pass.codeLoop ⟨instructionSet, map, s⟩ ext last fuel p := by
    induction fuel generalizing p with
    | zero => rfl
    | succ fuel ih =>
        have hstep : p.codeStep ⟨instructionSet, map, s.allow next⟩ ext =
            p.codeStep ⟨instructionSet, map, s⟩ ext :=
          Pass.codeStep_allow ⟨instructionSet, map, s⟩ hx (decode_allow s next _)
        unfold Pass.codeLoop
        rw [hstep, ih]
  exact Job.run_allow ⟨instructionSet, map, s⟩ hx state
    fun _ _ r _ _ p _ _ => hloop r.last r.length p

/-! ## Either processor -/

theorem Machine.run_eq (machine : Option Machine) (job : Job) (first last : Int) :
    run machine job first last =
      run.result (job.run (extension machine) (fresh machine) first last) := by
  match machine with
  | none | some .z88 | some (.spectrum _) => rfl

/-- The option counts for the instructions of the Spectrum Next alone. An instruction, the labels
that it uses and the place behind it are the same with and without it, unless it begins with `ED`
and an opcode of the Spectrum Next: that is a `nop` of two bytes without the option. A pass without
an extension reports the same if nothing that it lists without the option begins so. Else the lines
of a part are the same up to the first that does, and all those of a part without one. A 6502 listing
does not depend on the option, under any machine. -/
theorem Setting.allow_confined (s : Setting) (map : MemoryMap) (first last : Int) :
    let on := s.allow true
    let off := s.allow false
    let report := fun t : Setting =>
      (⟨Z80.instructionSet, map, t⟩ : Job).run .absent () first last
    (∀ c : Cursor,
      (¬Z80.NextAt s.image c.offset →
        Z80.instructionSet.decode on c = Z80.instructionSet.decode off c) ∧
      (Z80.NextAt s.image c.offset →
        let d := Z80.instructionSet.decode off c
        d.item.text = Text.ofString "nop" ∧ d.item.opcodes.length = 2 ∧ d.references = [])) ∧
    (∀ o, (report off).output = some o → (∀ item ∈ o.items.toList, item.startsNext = false) →
      report on = report off) ∧
    (report on).output.isSome = (report off).output.isSome ∧
    (∀ o o', (report on).output = some o → (report off).output = some o' →
      ∃ window, (⟨Z80.instructionSet, map, s⟩ : Job).window first last = some window ∧
        let parts := (⟨Z80.instructionSet, map, s⟩ : Job).parts window
        o.lines = parts.flatMap (Z80.instructionSet.lines on) ∧
        o'.lines = parts.flatMap (Z80.instructionSet.lines off) ∧
        ∀ r ∈ parts,
          let lines := Z80.instructionSet.lines on r
          let lines' := Z80.instructionSet.lines off r
          if r.kind = .code then
            lines.takeWhile (!·.startsNext) = lines'.takeWhile (!·.startsNext) ∧
              ((∀ item ∈ lines', item.startsNext = false) → lines = lines')
          else lines = lines') ∧
    ∀ machine : Option Machine,
      Machine.run machine ⟨Mos6502.instructionSet, map, on⟩ first last =
        Machine.run machine ⟨Mos6502.instructionSet, map, off⟩ first last := by
  intro on off report
  refine ⟨fun c => ⟨fun h => ?_, fun h => Z80.decode_next_off h⟩,
    fun o ho hnone => Z80.run_allow s map ho hnone, ?_, fun o o' ho ho' => ?_, fun machine => ?_⟩
  · exact (Z80.decode_allow h true).trans (Z80.decode_allow h false).symm
  · have hsome (t : Setting) :=
      Job.run_isSome ⟨Z80.instructionSet, map, t⟩ .absent () first last
    exact (hsome on).trans (hsome off).symm
  · obtain ⟨window, hwindow, hextends⟩ := Job.run_extends Z80.sound ho
    obtain ⟨window', hwindow', hextends'⟩ := Job.run_extends Z80.sound ho'
    obtain rfl : window = window' := Option.some.inj (hwindow.symm.trans hwindow')
    exact ⟨window, hwindow, hextends.lines, hextends'.lines, fun r _ => Z80.lines_allow s r⟩
  · have hrun (next : Bool) :=
      Mos6502.run_allow (Machine.extension_unaware machine) map s next (Machine.fresh machine) first
        last
    rw [Machine.run_eq, Machine.run_eq]
    exact congrArg Machine.run.result ((hrun true).trans (hrun false).symm)

/-- `ED` behind an index prefix, as an operand and at the end of an image is not the beginning of an
instruction of the Spectrum Next. `nextreg` takes the two bytes behind it, too, so that only the
instruction in front of it is listed alike. -/
theorem Setting.allow_confined_nextreg :
    let map := MemoryMap.ofList [.span 0 0xFFFF .code]
    let setting (bytes : Array UInt8) : Setting := { image := { bytes := bytes } }
    let report (bytes : Array UInt8) (next : Bool) :=
      (⟨Z80.instructionSet, map, (setting bytes).allow next⟩ : Job).run .absent () 0 0xFFFF
    let plain := #[0xDD, 0xED, 0x34, 0x3E, 0xED, 0x34, 0xED]
    let nextreg := #[0x3E, 0x01, 0xED, 0x91, 0x07, 0xC3, 0x00, 0x00]
    report plain true = report plain false ∧
      (Z80.instructionSet.decode ((setting nextreg).allow false) { offset := 2 }).item.text =
        Text.ofString "nop" ∧
      ∃ o o', (report nextreg true).output = some o ∧ (report nextreg false).output = some o' ∧
        o.items.toList.map Item.opcodes = [[0x3E, 0x01], [0xED, 0x91, 0x07, 0xC3], [0x00], [0x00]] ∧
        o'.items.toList.map Item.opcodes = [[0x3E, 0x01], [0xED, 0x91], [0x07], [0xC3, 0, 0]] ∧
        o.lines.takeWhile (!·.startsNext) = o'.lines.takeWhile (!·.startsNext) := by
  intro map setting report plain nextreg
  obtain ⟨-, hsame, -⟩ := Setting.allow_confined (setting plain) map 0 0xFFFF
  obtain ⟨hdecode, -, -, hparts, -⟩ := Setting.allow_confined (setting nextreg) map 0 0xFFFF
  have hplain : (report plain false).output.map (fun o => o.items.toList.all (!·.startsNext)) =
      some true := by decide +kernel
  obtain ⟨o₀, ho₀, hnone⟩ := Option.map_eq_some_iff.1 hplain
  have hon : (report nextreg true).output.map (fun o => o.items.toList.map Item.opcodes) =
      some [[0x3E, 0x01], [0xED, 0x91, 0x07, 0xC3], [0x00], [0x00]] := by decide +kernel
  have hoff : (report nextreg false).output.map (fun o => o.items.toList.map Item.opcodes) =
      some [[0x3E, 0x01], [0xED, 0x91], [0x07], [0xC3, 0, 0]] := by decide +kernel
  obtain ⟨o, ho, hitems⟩ := Option.map_eq_some_iff.1 hon
  obtain ⟨o', ho', hitems'⟩ := Option.map_eq_some_iff.1 hoff
  refine ⟨hsame o₀ ho₀ fun item hi => ?_, ((hdecode { offset := 2 }).2 ?_).1,
    o, o', ho, ho', hitems, hitems', ?_⟩
  · simpa using List.all_eq_true.1 hnone item hi
  · exact ⟨0x91, by decide, by decide, by decide⟩
  · obtain ⟨window, hwindow, hlines, hlines', hcommon⟩ := hparts o o' ho ho'
    obtain rfl : window = .span 0 7 .code := Option.some.inj (hwindow.symm.trans (by decide))
    have hone : (⟨Z80.instructionSet, map, setting nextreg⟩ : Job).parts (.span 0 7 .code) =
        [.span 0 7 .code] := by decide
    rw [hone] at hlines hlines' hcommon
    rw [hlines, hlines', List.flatMap_singleton, List.flatMap_singleton]
    exact (hcommon _ (List.mem_singleton_self _)).1

end RomListing

import RomListing.Pass
import RomListing.Proofs.Checked.Patterns
import RomListing.Proofs.Checked.Machines

/-! # Checked passes

A pass whose instruction set and extension have twins is checked as a whole: step by step, part
by part, and for the run. The checked run ends with the report of the run.
-/

namespace RomListing

/-! ## Data lines -/

namespace InstructionSet

def checkedDataItem (cpu : InstructionSet) (s : Setting) (place : Int) (bytes : List UInt8)
    (text : String) : Checked Item := do
  let place := fold cpu.addressMask place
  let partition ← s.options.checkedPartitionAt place
  return { address := cpu.shownAddress s place
           opcodes := bytes
           text := text
           partition := partition }

def checkedByteLine (cpu : InstructionSet) (s : Setting) (place : Int) (count : Nat) :
    Checked Item := do
  let bytes ← (List.range count).mapM fun (j : Nat) => s.image.checkedByteAt (place + j)
  cpu.checkedDataItem s place bytes
    (cpu.byteDirective ++ " " ++ ", ".intercalate (bytes.map (byteOperand s.options)))

def checkedByteLines (cpu : InstructionSet) (s : Setting) (r : Region) : Checked (List Item) :=
  (List.range ((r.length + 7) / 8)).mapM fun i =>
    cpu.checkedByteLine s (r.first + 8 * i : Nat) (min 8 (r.length - 8 * i))

def checkedWordLine (cpu : InstructionSet) (s : Setting) (place : Int) (count : Nat) :
    Checked Item := do
  let pairs ← (List.range count).mapM fun (k : Nat) => do
    let low ← s.image.checkedByteAt (place + 2 * k)
    let high ← s.image.checkedByteAt (place + 2 * k + 1)
    return (low, high)
  cpu.checkedDataItem s place (pairs.flatMap fun (low, high) => [low, high])
    (cpu.wordDirective ++ " " ++ ", ".intercalate
      (pairs.map fun (low, high) => s.options.wordText (low.toNat + 0x100 * high.toNat)))

def checkedWordLines (cpu : InstructionSet) (s : Setting) (r : Region) : Checked (List Item) := do
  let lines ← (List.range ((r.length + 6) / 8)).mapM fun i =>
    cpu.checkedWordLine s (r.first + 8 * i : Nat) (min 4 ((r.length - 8 * i) / 2))
  if r.length % 2 = 1 then
    let line ← cpu.checkedByteLine s r.last 1
    return lines ++ [line]
  else return lines

def checkedGapLine (cpu : InstructionSet) (s : Setting) (r : Region) : Checked Item :=
  let count := if s.options.decimal then Numeral.decimal r.length
    else "$" ++ Numeral.hex4 r.length
  cpu.checkedDataItem s r.first [] (cpu.skipDirective ++ " " ++ count)

variable (cpu : InstructionSet) (s : Setting)

theorem checkedDataItem_eq (place : Int) (bytes : List UInt8) (text : String) :
    cpu.checkedDataItem s place bytes text = pure (cpu.dataItem s place bytes text) := by
  rw [checkedDataItem, Options.checkedPartitionAt_eq]
  rfl

theorem checkedByteLine_eq (place : Int) (count : Nat) :
    cpu.checkedByteLine s place count = pure (cpu.byteLine s place count) := by
  simp only [checkedByteLine, Image.checkedByteAt_eq, List.mapM_pure, pure_bind,
    checkedDataItem_eq]
  rfl

theorem checkedByteLines_eq (r : Region) :
    cpu.checkedByteLines s r = pure (cpu.byteLines s r) := by
  simp only [checkedByteLines, checkedByteLine_eq, List.mapM_pure]
  rfl

theorem checkedWordLine_eq (place : Int) (count : Nat) :
    cpu.checkedWordLine s place count = pure (cpu.wordLine s place count) := by
  simp only [checkedWordLine, Image.checkedByteAt_eq, List.mapM_pure, pure_bind,
    checkedDataItem_eq]
  rfl

theorem checkedWordLines_eq (r : Region) :
    cpu.checkedWordLines s r = pure (cpu.wordLines s r) := by
  unfold checkedWordLines wordLines
  simp only [checkedWordLine_eq, checkedByteLine_eq, List.mapM_pure, pure_bind]
  split <;> rfl

theorem checkedGapLine_eq (r : Region) : cpu.checkedGapLine s r = pure (cpu.gapLine s r) :=
  cpu.checkedDataItem_eq s r.first [] _

end InstructionSet

/-! ## Steps and parts -/

namespace Pass

variable {σ : Type}

def checkedDecodeStep (job : Job) (ext : Extension σ) (cpu : job.cpu.Twin) (p : Pass σ) :
    Checked (Pass σ) := do
  let d ← InstructionSet.checkedDecode cpu job.setting p.cursor
  let v := ext.after job.setting d.item p.state
  return { p with
    cursor := d.cursor
    state := v.state
    output := (p.output.refer d.references).add
      { d.item with remark := v.remark <|> d.item.remark }
    notices := p.notices ++ v.notices.toArray }

def checkedCodeStep (job : Job) (ext : Extension σ) (cpu : job.cpu.Twin) (hooks : ext.Twin)
    (p : Pass σ) : Checked (Pass σ) := do
  let place := p.cursor.offset
  let step ← hooks.before job.setting p.cursor p.state
  let p := { p with started := p.started + 1 }.absorb step
  if step.handled then
    if p.cursor.offset = place ∧ p.cursor.overflow = false then
      (p.note [.idle place]).checkedDecodeStep job ext cpu
    else return p
  else p.checkedDecodeStep job ext cpu

def checkedCodeLoop (job : Job) (ext : Extension σ) (cpu : job.cpu.Twin) (hooks : ext.Twin)
    (last : Int) : Nat → Pass σ → Checked (Pass σ)
  | 0, p => return p
  | fuel + 1, p => do
    if p.cursor.offset ≤ last ∧ p.cursor.overflow = false then
      let p ← p.checkedCodeStep job ext cpu hooks
      checkedCodeLoop job ext cpu hooks last fuel p
    else return p

def checkedCodePart (job : Job) (ext : Extension σ) (cpu : job.cpu.Twin) (hooks : ext.Twin)
    (r : Region) (p : Pass σ) : Checked (Pass σ) := do
  let (state, notices) := ext.enter r p.state
  let p := ({ p with state := state }.note notices).seek r
  let p ← checkedCodeLoop job ext cpu hooks r.last r.length p
  return p.fixup

def checkedCustomPart (job : Job) (ext : Extension σ) (hooks : ext.Twin) (r : Region)
    (p : Pass σ) : Checked (Pass σ) := do
  let p := p.seek r
  let step ← hooks.custom job.setting r p.cursor p.state
  let p := p.absorb step
  if step.handled then return p.fixup
  else
    let lines ← job.cpu.checkedByteLines job.setting r
    return p.addLines lines

def checkedPart (job : Job) (ext : Extension σ) (cpu : job.cpu.Twin) (hooks : ext.Twin)
    (p : Pass σ) (r : Region) : Checked (Pass σ) := do
  let p := p.note [.part r]
  match r.kind with
  | .code => p.checkedCodePart job ext cpu hooks r
  | .bytes => return p.addLines (← job.cpu.checkedByteLines job.setting r)
  | .words => return p.addLines (← job.cpu.checkedWordLines job.setting r)
  | .gap => return p.addLines [← job.cpu.checkedGapLine job.setting r]
  | .custom => p.checkedCustomPart job ext hooks r

variable {job : Job} {ext : Extension σ} (cpu : job.cpu.Twin) (hooks : ext.Twin) (p : Pass σ)

theorem checkedDecodeStep_eq :
    p.checkedDecodeStep job ext cpu = pure (p.decodeStep job ext) := by
  rw [checkedDecodeStep, InstructionSet.checkedDecode_eq]
  rfl

theorem checkedCodeStep_eq :
    p.checkedCodeStep job ext cpu hooks = pure (p.codeStep job ext) := by
  unfold checkedCodeStep codeStep
  simp only [hooks.before_eq, checkedDecodeStep_eq, pure_bind]
  split
  · split <;> rfl
  · rfl

theorem checkedCodeLoop_eq (last : Int) (fuel : Nat) :
    checkedCodeLoop job ext cpu hooks last fuel p = pure (codeLoop job ext last fuel p) := by
  induction fuel generalizing p with
  | zero => rfl
  | succ fuel ih =>
      rw [checkedCodeLoop, codeLoop]
      split
      · rw [checkedCodeStep_eq, pure_bind, ih]
      · rfl

theorem checkedCodePart_eq (r : Region) :
    p.checkedCodePart job ext cpu hooks r = pure (p.codePart job ext r) := by
  simp only [checkedCodePart, codePart, checkedCodeLoop_eq, pure_bind]

theorem checkedCustomPart_eq (r : Region) :
    p.checkedCustomPart job ext hooks r = pure (p.customPart job ext r) := by
  unfold checkedCustomPart customPart
  simp only [hooks.custom_eq, InstructionSet.checkedByteLines_eq, pure_bind]
  split <;> rfl

theorem checkedPart_eq (r : Region) :
    p.checkedPart job ext cpu hooks r = pure (p.part job ext r) := by
  unfold checkedPart part
  simp only [checkedCodePart_eq, checkedCustomPart_eq, InstructionSet.checkedByteLines_eq,
    InstructionSet.checkedWordLines_eq, InstructionSet.checkedGapLine_eq, pure_bind]
  cases r.kind <;> rfl

end Pass

/-! ## Runs -/

namespace Job

variable {σ : Type}

def checkedRun (job : Job) (ext : Extension σ) (cpu : job.cpu.Twin) (hooks : ext.Twin)
    (state : σ) (first last : Int) : Checked (Report σ) := do
  if job.setting.image.bytes.isEmpty then return { output := none, state := state }
  else
    match job.window first last with
    | none => return { output := none, state := state, notices := [.outside] }
    | some window =>
      let p ← (job.parts window).foldlM (Pass.checkedPart job ext cpu hooks)
        { cursor := { offset := 0 }, state := state }
      let p := p.fixup
      return { output := some p.output
               state := p.state
               started := p.started
               notices := p.notices.toList }

/-- Every position, every key and every number of a run is checked and holds. -/
theorem checkedRun_eq (job : Job) {ext : Extension σ} (cpu : job.cpu.Twin) (hooks : ext.Twin)
    (state : σ) (first last : Int) :
    job.checkedRun ext cpu hooks state first last = .ok (job.run ext state first last) := by
  have hpart : Pass.checkedPart job ext cpu hooks = fun p r => pure (p.part job ext r) :=
    funext fun p => funext fun r => p.checkedPart_eq cpu hooks r
  unfold checkedRun run
  rw [hpart]
  simp only [List.foldlM_pure, pure_bind]
  split
  · rfl
  · cases job.window first last <;> rfl

end Job

end RomListing

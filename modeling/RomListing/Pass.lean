import RomListing.DataLines
import RomListing.Extension
import RomListing.MemoryMap

/-!
# Passes

A pass lists the parts of a memory map that lie in the requested range, in order, and
writes items and labels into a new output.
-/

namespace RomListing

/-- What is to be listed: an image, how its regions are to be read, and by which rules. -/
structure Job where
  cpu : InstructionSet
  map : MemoryMap
  setting : Setting

structure Pass (σ : Type) where
  cursor : Cursor
  state : σ
  output : Output := {}
  /-- The number of items that have been begun. -/
  started : Nat := 0
  notices : Array Notice := #[]

structure Report (σ : Type) where
  /-- None if nothing of the requested range is in the image. -/
  output : Option Output
  state : σ
  started : Nat := 0
  notices : List Notice := []

/-- The counts at which the pass let its caller go on: one after every hundred items. -/
def Report.pauses (r : Report σ) : List Nat :=
  (List.range (r.started / 100)).map fun i => 100 * (i + 1)

namespace Pass

variable {σ : Type}

def note (p : Pass σ) (ns : List Notice) : Pass σ :=
  { p with notices := p.notices ++ ns.toArray }

def absorb (p : Pass σ) (step : Step σ) : Pass σ :=
  { p with
    cursor := step.cursor
    state := step.state
    output := (p.output.addAll step.items).refer step.references
    notices := p.notices ++ step.notices.toArray }

def fixup (p : Pass σ) : Pass σ := { p with output := p.output.fixup }

def seek (p : Pass σ) (r : Region) : Pass σ :=
  { p with cursor := { p.cursor with offset := r.first, overflow := false } }

def addLines (p : Pass σ) (lines : List Item) : Pass σ :=
  { p with output := p.output.addAll lines, started := p.started + lines.length }

def decodeStep (job : Job) (ext : Extension σ) (p : Pass σ) : Pass σ :=
  let d := job.cpu.decode job.setting p.cursor
  let v := ext.after job.setting d.item p.state
  { p with
    cursor := d.cursor
    state := v.state
    output := (p.output.refer d.references).add
      { d.item with remark := v.remark <|> d.item.remark }
    notices := p.notices ++ v.notices.toArray }

/-- Reads on at the cursor. An extension that takes over must read at least one byte. -/
def codeStep (job : Job) (ext : Extension σ) (p : Pass σ) : Pass σ :=
  let place := p.cursor.offset
  let step := ext.before job.setting p.cursor p.state
  let p := { p with started := p.started + 1 }.absorb step
  if step.handled then
    if p.cursor.offset = place ∧ p.cursor.overflow = false then
      (p.note [.idle place]).decodeStep job ext
    else p
  else p.decodeStep job ext

def codeLoop (job : Job) (ext : Extension σ) (last : Int) : Nat → Pass σ → Pass σ
  | 0, p => p
  | fuel + 1, p =>
    if p.cursor.offset ≤ last ∧ p.cursor.overflow = false then
      codeLoop job ext last fuel (p.codeStep job ext)
    else p

/-- Lists a code region. Every step reads a byte or leaves the image, so the length of the
region bounds their number. -/
def codePart (job : Job) (ext : Extension σ) (r : Region) (p : Pass σ) : Pass σ :=
  let (state, notices) := ext.enter r p.state
  let p := ({ p with state := state }.note notices).seek r
  (codeLoop job ext r.last r.length p).fixup

/-- Lists a custom region through the extension, or else as bytes. -/
def customPart (job : Job) (ext : Extension σ) (r : Region) (p : Pass σ) : Pass σ :=
  let p := p.seek r
  let step := ext.custom job.setting r p.cursor p.state
  let p := p.absorb step
  if step.handled then p.fixup else p.addLines (job.cpu.byteLines job.setting r)

def part (job : Job) (ext : Extension σ) (p : Pass σ) (r : Region) : Pass σ :=
  let p := p.note [.part r]
  match r.kind with
  | .code => p.codePart job ext r
  | .bytes => p.addLines (job.cpu.byteLines job.setting r)
  | .words => p.addLines (job.cpu.wordLines job.setting r)
  | .gap => p.addLines [job.cpu.gapLine job.setting r]
  | .custom => p.customPart job ext r

end Pass

namespace Job

/-- The job that reads the whole image as code. -/
def whole (cpu : InstructionSet) (setting : Setting) : Job where
  cpu := cpu
  map := .ofList [.span setting.image.base setting.image.last .code]
  setting := setting

/-- The requested range as far as it lies in the image and in the address space. -/
def window (job : Job) (first last : Int) : Option Region :=
  let first := max first job.setting.image.base
  let last := min last (min job.setting.image.last job.cpu.addressMask)
  if first > last then none else some (.span first last .code)

def parts (job : Job) (window : Region) : List Region :=
  job.map.regions.filterMap (·.intersect window)

def run (job : Job) (ext : Extension σ) (state : σ) (first last : Int) : Report σ :=
  if job.setting.image.bytes.isEmpty then { output := none, state := state }
  else
    match job.window first last with
    | none => { output := none, state := state, notices := [.outside] }
    | some window =>
      let p := ((job.parts window).foldl (Pass.part job ext)
        { cursor := { offset := 0 }, state := state }).fixup
      { output := some p.output
        state := p.state
        started := p.started
        notices := p.notices.toList }

end Job

end RomListing

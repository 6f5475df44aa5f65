import RomListing.Listing
import RomListing.Machine
import RomListing.Mos6502.Instructions
import RomListing.Project.Basic
import RomListing.Z80.Instructions

/-!
# Running a project

Sets up the processor, the machine and the memory map that a project names, lists the
image and puts the project's remarks in.
-/

namespace RomListing.Project

inductive SetupError where
  | architecture (name : Text)
  | machine (name : Text)
  deriving DecidableEq

def SetupError.message : SetupError → Text
  | .architecture name => "Unsupported architecture: " ++ name
  | .machine name => "Unsupported machine: " ++ name

def processors : List (String × InstructionSet) :=
  [("Z80", Z80.instructionSet), ("MOS6502", Mos6502.instructionSet),
    ("M6510", Mos6502.instructionSet)]

def processor (p : Project) : Except SetupError InstructionSet :=
  match (Text.upper p.architecture).lookupIn processors with
  | some cpu => .ok cpu
  | none => .error (.architecture p.architecture)

def namedMachine (p : Project) : Except SetupError (Option Machine) :=
  match p.machine.filter (!·.isEmpty) with
  | none => .ok none
  | some name =>
    match (Text.upper name).lookupIn Machine.byName with
    | some m => .ok (some m)
    | none => .error (.machine name)

/-- The regions of the project; without any the whole image is code. -/
def map (p : Project) (bytes : Array UInt8) : MemoryMap :=
  if p.regions.isEmpty then
    .ofList [.span p.base (p.base + (max bytes.size 1 : Nat) - 1) .code]
  else .ofList p.regions

def job (p : Project) (cpu : InstructionSet) (bytes : Array UInt8) : Job where
  cpu := cpu
  map := p.map bytes
  setting :=
    { image := { bytes := bytes, base := p.base }
      addressOffset := p.addressOffset
      options := p.options }

def applyComments (p : Project) (o : Output) : Output :=
  p.comments.foldl (fun o (address, text) =>
    o.modify (wrap address) fun item => { item with comment := some text }) o

structure Result where
  output : Option Output
  notices : List Notice

def run (p : Project) (bytes : Array UInt8) : Except SetupError Result := do
  let cpu ← p.processor
  let machine ← p.namedMachine
  let (output, notices) := Machine.run machine (p.job cpu bytes) p.first p.last
  let name := p.machine.filter (!·.isEmpty)
  return { output := output.map p.applyComments, notices := .built cpu.name name :: notices }

end RomListing.Project

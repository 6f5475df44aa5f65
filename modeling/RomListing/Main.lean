import RomListing.CommandLine.Run

/-!
# The program

Reads the files that the arguments name, runs the command line on them and writes what it
gives.
-/

namespace RomListing.CommandLine

def lookAt (path : Text) : IO (Option Entry) := do
  let some name := path.toString? | return none
  match ← (IO.FS.readBinFile name).toBaseIO with
  | .ok bytes => return some (.file bytes.data)
  | .error (.inappropriateType ..) => return some .directory
  | .error _ => return none

def lookAtAll (paths : List Text) : IO Files := do
  let found ← paths.mapM fun path => return (path, ← lookAt path)
  return { entry := fun path => (found.lookup path).join }

/-- The text as it is printed, with the character that stands for what is none. -/
def printed (t : Text) : String := String.ofList t.chars

def writeOutcome (outcome : Outcome) : IO UInt32 := do
  for line in outcome.stderr do
    IO.eprintln (printed line)
  IO.print (printed outcome.stdout)
  if let some (path, text) := outcome.file then
    if let some name := path.toString? then
      IO.FS.writeFile name (printed text)
  match outcome.failure with
  | none => return 0
  | some f =>
    IO.eprintln ("Error: " ++ printed f.message)
    return f.exitCode.toUInt32

end RomListing.CommandLine

def main (args : List String) : IO UInt32 := do
  let args := args.map RomListing.Text.ofString
  let files ← RomListing.CommandLine.lookAtAll (RomListing.CommandLine.paths args)
  RomListing.CommandLine.writeOutcome (RomListing.CommandLine.run files args)

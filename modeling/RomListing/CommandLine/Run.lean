import RomListing.CommandLine.Arguments
import RomListing.CommandLine.Files
import RomListing.CommandLine.TextFile
import RomListing.Project.Run
import RomListing.Text.Characters
import RomListing.Yaml.Document

/-!
# Running the command line

A run reads the image and the project file, lets the options override what the project
says, and gives the listing, or the reason why there is none.
-/

namespace RomListing.CommandLine

inductive Refusal where
  | missingFile (path : Text)
  | isDirectory (path : Text)
  | notInteger (text : Text)
  | notChoice (text : Text) (choices : List String)
  | badAddress (text : Text)
  | addressRange
  deriving DecidableEq

def Refusal.message : Refusal → Text
  | .missingFile path => "File " ++ Text.quoted (Path.shown path) ++ " does not exist."
  | .isDirectory path => "File " ++ Text.quoted (Path.shown path) ++ " is a directory."
  | .notInteger text => Text.quoted text ++ " is not a valid integer."
  | .notChoice text choices =>
    Text.quoted text ++ " is not one of "
      ++ ", ".intercalate (choices.map fun (c : String) => Text.quoted c) ++ "."
  | .badAddress text => "Invalid address '" ++ text ++ "'"
  | .addressRange => "Address must be 0-65535 (0x0000-0xFFFF)"

inductive Failure where
  | misuse (m : Misuse)
  | extraArguments (names : List Text)
  | missingInput
  | refused (name : String) (r : Refusal)
  | encoding (f : Text.Utf8Fault)
  | document (e : Yaml.LoadError)
  | project (e : Project.Error)
  | setup (e : Project.SetupError)
  | empty (first last : Int)
  | write (path : Text) (f : Files.WriteFault)
  /-- A path has no bytes, or the listing has no UTF-8 form. -/
  | unencodable
  /-- A path goes on behind its end. -/
  | nulInPath

namespace Failure

def message : Failure → Text
  | .misuse m => m.message
  | .extraArguments names =>
    "Got unexpected extra argument" ++ (if names.length = 1 then "" else "s")
      ++ " (" ++ Text.join " " names ++ ")"
  | .missingInput => "Missing argument 'INPUT_FILE'."
  | .refused name r => "Invalid value for " ++ name ++ ": " ++ r.message
  | .encoding f => f.message
  | .document e => e.message
  | .project e => e.message
  | .setup e => e.message
  | .empty first last =>
    "Nothing to disassemble in $" ++ Numeral.hex4 first ++ "-$" ++ Numeral.hex4 last
  | .write path f => "Error writing " ++ path ++ ": " ++ f.message
  | .unencodable => "half characters cannot be written"
  | .nulInPath => "a path must not hold a null character"

def exitCode : Failure → Nat
  | .misuse _ => 2
  | .extraArguments _ => 2
  | .missingInput => 2
  | .refused _ _ => 2
  | _ => 1

end Failure

/-- What a run writes, and why it stops early if it does. -/
structure Outcome where
  stdout : Text := []
  stderr : List Text := []
  /-- A file to be written. -/
  file : Option (Text × Text) := none
  failure : Option Failure := none

def versionText : String := "retro-disasm, version 0.1.0\n"

def usageText : String :=
  "Usage: retro-disasm [OPTIONS] INPUT_FILE\n\n  Disassemble Z80 or 6502 machine code.\n"

/-! ## Values of options -/

def architectures : List String := ["z80", "mos6502"]

def machines : List String :=
  ["spectrum128", "spectrum48", "spectrumnext", "spectrump3", "z88"]

/-- The letters that differ from a choice in their case only. -/
def foldCase (t : Text) : Text :=
  Text.mapChars (fun c => if c = '\u017f' then ['s'] else Text.lowerChar c) t

def choice (choices : List String) (text : Text) : Except Refusal String :=
  match choices.find? (Text.ofString · == foldCase text) with
  | some c => .ok c
  | none => .error (.notChoice text choices)

def existingFile (files : Files) (path : Text) : Except Refusal (Array UInt8) :=
  match files.entry path with
  | none => .error (.missingFile path)
  | some .directory => .error (.isDirectory path)
  | some (.file bytes) => .ok bytes

def integer (text : Text) : Except Refusal Int :=
  (Text.Integer.read 10 text).mapError fun _ => .notInteger text

def address (text : Text) : Except Refusal Int :=
  match Project.shortIntegerText? text with
  | none => .error (.badAddress text)
  | some n => if 0 ≤ n ∧ n ≤ 0xFFFF then .ok n else .error .addressRange

def Parameter.hint (p : Parameter) : String :=
  " / ".intercalate ((flags.filter (·.parameter == p)).map fun f => "'" ++ f.name ++ "'")

def check (files : Files) (p : Parameter) (text : Text) : Except Refusal Unit :=
  match p with
  | .config => do let _ ← existingFile files text
  | .architecture => do let _ ← choice architectures text
  | .machine => do let _ ← choice machines text
  | .romPage => do let _ ← integer text
  | .output =>
    match files.entry text with
    | some .directory => .error (.isDirectory text)
    | _ => .ok ()
  | _ => .ok ()

def refuse (name : String) (r : Except Refusal α) : Except Failure α :=
  r.mapError (.refused name)

def Parameter.isPath (p : Parameter) : Bool := p = .config || p = .output

def checkPath (path : Text) : Except Failure Unit :=
  if (Path.bytes? path).isNone then .error .unencodable
  else if path.contains (.char '\x00') then .error .nulInPath
  else .ok ()

/-- Looks at all arguments, those given first. -/
def checkAll (files : Files) (a : Arguments) : Except Failure (Text × Array UInt8) := do
  for p in a.parameters do
    let text := (a.value? p).getD []
    if p.isPath then checkPath text
    refuse p.hint (check files p text)
  match a.names with
  | [] => .error .missingInput
  | name :: more =>
    checkPath name
    let bytes ← refuse "'INPUT_FILE'" (existingFile files name)
    if more.isEmpty then return (name, bytes) else .error (.extraArguments more)

/-! ## The run -/

def readProject (bytes : Array UInt8) : Except Failure Project := do
  let text ← (TextFile.read bytes.toList).mapError .encoding
  let data ← (Yaml.load text).mapError .document
  (Project.ofData (Project.documentData data)).mapError .project

def addressOf (a : Arguments) (p : Parameter) (name : String) : Except Failure (Option Int) :=
  match a.value? p with
  | none => .ok none
  | some text => do return some (← refuse name (address text))

def override (a : Arguments) (p : Project) : Except Failure Project := do
  let base ← addressOf a .base "--base-address"
  let first ← addressOf a .first "--start"
  let last ← addressOf a .last "--end"
  let named (choices : List String) (q : Parameter) : Option Text :=
    (a.value? q).bind fun text => (choice choices text).toOption.map fun c => Text.upper c
  let page := (a.value? .romPage).bind fun text => (integer text).toOption
  return { p with
    architecture := (named architectures .architecture).getD p.architecture
    machine := named machines .machine <|> p.machine
    base := base.getD p.base
    first := first.getD p.first
    last := last.getD p.last
    options := { p.options with
      decimal := p.options.decimal || a.isGiven .decimal
      bareLabels := p.options.bareLabels || a.isGiven .bareLabels
      extended := p.options.extended || a.isGiven .extended
      romPage := page <|> p.options.romPage } }

def loadProject (files : Files) (a : Arguments) : Except Failure Project :=
  match a.value? .config with
  | none => .ok {}
  | some path => do readProject (← refuse Parameter.config.hint (existingFile files path))

def noticeLine (n : Notice) : Text := n.level.name ++ " " ++ n.channel ++ ": " ++ n.message

def shown (verbose : Bool) (ns : List Notice) : List Text :=
  (ns.filter fun n => verbose || n.level = .warning).map noticeLine

/-- Puts a finished listing where it belongs. What goes to a terminal by rights is written
without control sequences, a file holds the listing as it is. -/
def deliver (files : Files) (a : Arguments) (text : Text) (count : Nat)
    (stderr : List Text) : Outcome :=
  let finish (lines : List Text) (o : Outcome) : Outcome :=
    if a.isGiven .verbose then
      { o with stderr := o.stderr ++ lines ++ [Text.ofString ("Items disassembled: " ++ toString count)] }
    else o
  match a.value? .output with
  | none => finish [] { stdout := Text.plain text, stderr := stderr }
  | some path =>
    let path := Path.normal path
    match files.writeFault? path with
    | some f => { stderr := stderr, failure := some (.write path f) }
    | none =>
      if Text.isEncodable text then
        finish [Text.plain ("Output written to: " ++ path)]
          { stderr := stderr, file := some (path, text) }
      else { stderr := stderr, file := some (path, []), failure := some .unencodable }

def disassemble (files : Files) (a : Arguments) (name : Text) (bytes : Array UInt8)
    (p : Project) : Outcome :=
  let verbose := a.isGiven .verbose
  let opening : List Text :=
    if verbose then
      [Text.plain ("Input file: " ++ Path.normal name ++ " (" ++ toString bytes.size ++ " bytes)"),
        "Base address: $" ++ Numeral.hex4 p.base]
    else []
  match p.run bytes with
  | .error e => { stderr := opening, failure := some (.setup e) }
  | .ok r =>
    let stderr := opening ++ shown verbose r.notices
    match r.output with
    | none => { stderr := stderr, failure := some (.empty p.first p.last) }
    | some o =>
      let listing := Listing.ofOptions p.options (a.value? .bytes != some ("no" : String))
      deliver files a (listing.render o) o.items.size stderr

def runArguments (files : Files) (a : Arguments) : Outcome :=
  let early := a.parameters.find? fun p => p = .version ∨ p = .help
  match early with
  | some .version => { stdout := versionText }
  | some _ => { stdout := usageText }
  | none =>
    let prepared : Except Failure (Text × Array UInt8 × Project) := do
      let (name, bytes) ← checkAll files a
      let p ← override a (← loadProject files a)
      return (name, bytes, p)
    match prepared with
    | .error f => { failure := some f }
    | .ok (name, bytes, p) => disassemble files a name bytes p

def run (files : Files) (args : List Text) : Outcome :=
  match Arguments.read args with
  | .error m => { failure := some (.misuse m) }
  | .ok a => runArguments files a

def paths (args : List Text) : List Text :=
  match Arguments.read args with
  | .error _ => []
  | .ok a =>
    let output := (a.value? .output).toList
    (a.value? .config).toList ++ a.names ++ output
      ++ output.flatMap fun path =>
        Path.normal path :: (Path.leads (Path.normal path)).map Prod.fst

end RomListing.CommandLine

import RomListing.CommandLine.Similar

/-!
# Arguments of the command line

Options may stand before and behind the name of the image, up to `--`. A long option takes
its value behind `=` or as the next argument, a short one as the rest of its argument or
the next one; short options without a value may share a dash.
-/

namespace RomListing.CommandLine

inductive Parameter where
  | config
  | architecture
  | machine
  | base
  | first
  | last
  | decimal
  | bareLabels
  | extended
  | romPage
  | bytes
  | output
  | verbose
  | version
  | help
  deriving DecidableEq, Repr

structure Flag where
  name : String
  parameter : Parameter
  /-- What the option says by itself, none if it takes a value. -/
  constant : Option Text

def flags : List Flag :=
  [⟨"-c", .config, none⟩, ⟨"--config", .config, none⟩,
    ⟨"-a", .architecture, none⟩, ⟨"--arch", .architecture, none⟩,
    ⟨"-m", .machine, none⟩, ⟨"--machine", .machine, none⟩,
    ⟨"-b", .base, none⟩, ⟨"--base-address", .base, none⟩,
    ⟨"-s", .first, none⟩, ⟨"--start", .first, none⟩,
    ⟨"-e", .last, none⟩, ⟨"--end", .last, none⟩,
    ⟨"--decimal", .decimal, some "yes"⟩,
    ⟨"--no-label-prefix", .bareLabels, some "yes"⟩,
    ⟨"--extended", .extended, some "yes"⟩,
    ⟨"--rom-page", .romPage, none⟩,
    ⟨"--bytes", .bytes, some "yes"⟩, ⟨"--no-bytes", .bytes, some "no"⟩,
    ⟨"-o", .output, none⟩, ⟨"--output", .output, none⟩,
    ⟨"-v", .verbose, some "yes"⟩, ⟨"--verbose", .verbose, some "yes"⟩,
    ⟨"--version", .version, some "yes"⟩, ⟨"--help", .help, some "yes"⟩]

inductive Misuse where
  /-- No option has the name, but some have similar ones. -/
  | noSuchOption (name : Text) (similar : List String)
  | needsValue (name : Text)
  | takesNoValue (name : Text)
  deriving DecidableEq

def similarHint : List String → String
  | [] => ""
  | [other] => " Did you mean " ++ other ++ "?"
  | others => " (Possible options: " ++ ", ".intercalate (others.mergeSort (· ≤ ·)) ++ ")"

def Misuse.message : Misuse → Text
  | .noSuchOption name similar => "No such option: " ++ name ++ similarHint similar
  | .needsValue name => "Option '" ++ name ++ "' requires an argument."
  | .takesNoValue name => "Option '" ++ name ++ "' does not take a value."

structure Arguments where
  options : List (Parameter × Text) := []
  names : List Text := []
  deriving DecidableEq

namespace Arguments

def flag? (name : Text) : Option Flag := flags.find? (Text.ofString ·.name == name)

def isLong (name : String) : Bool := name.startsWith "--"

/-- The long options that a name may have been meant for. -/
def similarTo (name : Text) : List String :=
  Similar.closest ((flags.map Flag.name).filter isLong) name

/-- The options that share a dash, and the arguments behind them. -/
def cluster : Text → List Text → Except Misuse (List (Parameter × Text) × List Text)
  | [], rest => .ok ([], rest)
  | l :: more, rest =>
    let name : Text := ['-', l]
    match flag? name with
    | none => .error (.noSuchOption name [])
    | some f =>
      match f.constant with
      | some value => do
        let (options, rest) ← cluster more rest
        return ((f.parameter, value) :: options, rest)
      | none =>
        if more.isEmpty then
          match rest with
          | [] => .error (.needsValue name)
          | value :: rest => .ok ([(f.parameter, value)], rest)
        else .ok ([(f.parameter, more)], rest)

def splitValue (arg : Text) : Text × Option Text :=
  let name := arg.takeWhile (· != .char '=')
  match arg.drop name.length with
  | [] => (name, none)
  | _ :: value => (name, some value)

def long (arg : Text) (rest : List Text) :
    Except Misuse (List (Parameter × Text) × List Text) :=
  let (name, value) := splitValue arg
  match flag? name with
  | none => .error (.noSuchOption name (similarTo name))
  | some f =>
    match f.constant, value with
    | some _, some _ => .error (.takesNoValue name)
    | some constant, none => .ok ([(f.parameter, constant)], rest)
    | none, some value => .ok ([(f.parameter, value)], rest)
    | none, none =>
      match rest with
      | [] => .error (.needsValue name)
      | value :: rest => .ok ([(f.parameter, value)], rest)

def readFrom : Nat → List Text → Except Misuse Arguments
  | 0, _ => .ok {}
  | _, [] => .ok {}
  | fuel + 1, arg :: rest =>
    match arg with
    | [.char '-', .char '-'] => .ok { names := rest }
    | .char '-' :: .char '-' :: _ => do
      let (options, rest) ← long arg rest
      let a ← readFrom fuel rest
      return { a with options := options ++ a.options }
    | .char '-' :: l :: more => do
      let (options, rest) ← cluster (l :: more) rest
      let a ← readFrom fuel rest
      return { a with options := options ++ a.options }
    | _ => do
      let a ← readFrom fuel rest
      return { a with names := arg :: a.names }

/-- Reads arguments; each step takes one at least. -/
def read (args : List Text) : Except Misuse Arguments := readFrom args.length args

/-- The value that counts for an option, which is the last one. -/
def value? (a : Arguments) (p : Parameter) : Option Text := a.options.reverse.lookup p

def isGiven (a : Arguments) (p : Parameter) : Bool := (a.value? p).isSome

/-- The options that were given, in the order of their first use. -/
def parameters (a : Arguments) : List Parameter :=
  a.options.foldl (fun ps (p, _) => if ps.contains p then ps else ps ++ [p]) []

end Arguments

end RomListing.CommandLine

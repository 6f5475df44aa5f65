import RomListing.Options
import RomListing.Region
import RomListing.Text.Case
import RomListing.Text.Characters
import RomListing.Text.Integer
import RomListing.Yaml.Value

/-!
# Projects

A project says how an image is to be listed: the processor and the machine, where the
image lies, the regions and what to remark at which address.
-/

namespace RomListing

structure Project where
  architecture : Text := "Z80"
  machine : Option Text := none
  base : Int := 0
  addressOffset : Int := 0
  first : Int := 0
  last : Int := 0xFFFF
  options : Options := {}
  regions : List Region := []
  /-- Remarks by address; of an address that is there twice the later text counts. -/
  comments : List (Int × Text) := []

namespace Project

open Yaml (Data Value)

/-- Why data describe no project. Values are told by their texts. -/
inductive Error where
  | notMapping (text : String)
  | badInteger (text : Text)
  | unknownKind (text : Text)
  /-- Entries are asked of a value that has none. -/
  | noEntries
  /-- Members are asked of a value that has none. -/
  | noMembers
  /-- A value has no text. -/
  | noText (f : Text.Integer.Fault)
  deriving DecidableEq

def Error.message : Error → Text
  | .notMapping text => "Configuration must be a mapping: " ++ text
  | .badInteger text => "Invalid integer format: " ++ text
  | .unknownKind text => "Unknown section type: " ++ text
  | .noEntries => "a value without entries"
  | .noMembers => "a value without members"
  | .noText f => f.message

def display (d : Data) (v : Value) : Except Error Text := (d.display v).mapError .noText

/-! ## Numbers -/

/-- The base that a text names, `0x` or `$` standing before a hexadecimal number, and the
number's literal. -/
def literal (t : Text) : Nat × Text :=
  match Text.trim (·.is Text.isBlank) t with
  | .char '$' :: rest => (16, rest)
  | .char '0' :: x :: rest =>
    (if x = .char 'x' ∨ x = .char 'X' then 16 else 10, .char '0' :: x :: rest)
  | rest => (10, rest)

def integerText? (t : Text) : Option Int :=
  let (base, rest) := literal t
  Text.Integer.value? base rest.chars

/-- Reads a number as long as decimal ones may be. -/
def shortIntegerText? (t : Text) : Option Int :=
  let (base, rest) := literal t
  (Text.Integer.read base rest).toOption

def integer (d : Data) (v : Value) : Except Error Int := do
  let n? := match v with
    | .int n => some n
    | .text t => shortIntegerText? t
    | _ => none
  match n? with
  | some n => return n
  | none => throw (.badInteger (← display d v))

/-! ## Parts -/

def kindNames : List (String × Region.Kind) :=
  [("disassemble", .code), ("code", .code), ("byte_array", .bytes), ("bytes", .bytes),
    ("word_array", .words), ("words", .words), ("skip", .gap), ("custom", .custom),
    ("calculator", .custom)]

def kind (d : Data) (v : Value) : Except Error Region.Kind := do
  let text ← display d v
  match (Text.lower text).lookupIn kindNames with
  | some k => return k
  | none => throw (.unknownKind text)

def entries (d : Data) (v : Value) : Except Error (List (Value × Value)) :=
  match d.entries? v with
  | some es => .ok es
  | none => .error .noEntries

def members (d : Data) (v : Value) : Except Error (List Value) :=
  match d.members? v with
  | some vs => .ok vs
  | none => .error .noMembers

/-- The value under a name if it counts as given. -/
def given? (d : Data) (name : String) (es : List (Value × Value)) : Option Value :=
  (Value.lookup name es).filter d.isGiven

def flag (d : Data) (name : String) (es : List (Value × Value)) : Bool :=
  (given? d name es).isSome

def integerAt (d : Data) (name : String) (default : Int) (es : List (Value × Value)) :
    Except Error Int :=
  match Value.lookup name es with
  | some v => integer d v
  | none => .ok default

def valueAt (name : String) (es : List (Value × Value)) : Value :=
  (Value.lookup name es).getD .null

def readPartitions (d : Data) (v : Value) : Except Error (Option (List Text)) :=
  if v = .null then .ok none
  else do return some (← (← members d v).mapM (display d))

def readRegion (d : Data) (v : Value) : Except Error Region := do
  let es ← entries d v
  let first ← integer d (valueAt "start" es)
  let last ← integer d (valueAt "end" es)
  let k ← kind d ((Value.lookup "type" es).getD (.text "DISASSEMBLE"))
  return .span first last k

/-- Puts a remark in; an address that is there keeps its place. -/
def noteComment (address : Int) (text : Text) : List (Int × Text) → List (Int × Text)
  | [] => [(address, text)]
  | (a, t) :: rest =>
    if a = address then (a, text) :: rest else (a, t) :: noteComment address text rest

def readComments (d : Data) (es : List (Value × Value)) :
    Except Error (List (Int × Text)) :=
  es.foldlM (fun acc (k, v) => do
    let address ← integer d k
    return noteComment address (← display d v) acc) []

def architectureNames : List (String × Text) :=
  [("M6510", "MOS6502"), ("6502", "MOS6502"), ("6510", "MOS6502")]

def architectureName (text : Text) : Text :=
  let name := Text.upper text
  (name.lookupIn architectureNames).getD name

/-- The data of a document that may be empty or hold nothing; that is an empty project. -/
def documentData (d : Option Data) : Data :=
  match d with
  | some d => if d.isGiven d.root then d else { containers := #[.mapping []], root := .container 0 }
  | none => { containers := #[.mapping []], root := .container 0 }

def ofData (d : Data) : Except Error Project := do
  let es ← match d.entries? d.root with
    | some es => pure es
    | none => do throw (.notMapping (← (d.repr d.root).mapError .noText))
  let architecture ← display d ((Value.lookup "architecture" es).getD (.text "Z80"))
  let options ← ((given? d "options" es).mapM (entries d)).map (·.getD [])
  let partitions ← readPartitions d (valueAt "partition_labels" es)
  let sections ← ((given? d "sections" es).mapM (members d)).map (·.getD [])
  let regions ← sections.mapM (readRegion d)
  let remarks ← ((given? d "comments" es).mapM (entries d)).map (·.getD [])
  let comments ← readComments d remarks
  let machine ← (given? d "machine" es).mapM (display d)
  let base ← integerAt d "base_address" 0 es
  let addressOffset ← integerAt d "address_offset" 0 es
  let first ← integerAt d "start" 0 es
  let last ← integerAt d "end" 0xFFFF es
  let page := valueAt "rom_page" options
  let romPage ← if page = .null then pure none else some <$> integer d page
  return {
    architecture := architectureName architecture
    machine := machine.map Text.upper
    base := base
    addressOffset := addressOffset
    first := first
    last := last
    options := {
      decimal := flag d "decimal_mode" options
      bareLabels := flag d "no_label_prefix" options
      extended := flag d "allow_extended_set" options
      romPage := romPage
      partitions := partitions }
    regions := regions
    comments := comments }

end Project

end RomListing

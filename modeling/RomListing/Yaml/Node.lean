import RomListing.Yaml.Kind
import RomListing.Yaml.Token

/-!
# Nodes of a YAML document

The nodes that the tokens of a document describe, each with the kind that its tag or its
text gives it. Nodes stand in a table and name each other by their places in it, since an
alias puts one node at several places, even within itself.
-/

namespace RomListing.Yaml

inductive Shape where
  | scalar (text : Text)
  | sequence (items : List Nat)
  | mapping (entries : List (Nat × Nat))

structure Node where
  kind : Kind
  shape : Shape

/-- The nodes of a document, and which one holds all of it. -/
structure Graph where
  nodes : Array Node
  root : Nat

namespace Node

/-- What has been read of a document: the nodes and the anchors so far, the tag handles that
directives gave, and the tokens left, with the fault that ends them if there is one. -/
structure Reader where
  tokens : List Token
  fault : Option Fault := none
  nodes : Array Node := #[]
  anchors : List (String × Nat) := []
  handles : List (String × String) := []
  /-- How many collections are open. -/
  depth : Nat := 0

abbrev Reading := StateT Reader (Except Fault)

/-- The next token, which stays. A fault shows when its place is reached. -/
def next : Reading Token := do
  let r ← get
  match r.tokens, r.fault with
  | t :: _, _ => return t
  | [], some f => throw f
  | [], none => return .streamEnd

def drop : Reading Unit := modify fun r => { r with tokens := r.tokens.tail }

def enter (anchor : Option String) (n : Node) : Reading Nat := do
  let r ← get
  let id := r.nodes.size
  match anchor with
  | none => modify fun r => { r with nodes := r.nodes.push n }
  | some name =>
    if (r.anchors.lookup name).isSome then throw (.duplicateAnchor name)
    modify fun r => { r with nodes := r.nodes.push n, anchors := (name, id) :: r.anchors }
  return id

/-- Gives a node that was taken in before its members the shape with them. -/
def fill (id : Nat) (shape : Shape) : Reading Unit :=
  modify fun r => { r with nodes := r.nodes.modify id fun n => { n with shape := shape } }

/-! ## Properties -/

def standardHandles : List (String × String) := [("!", "!"), ("!!", "tag:yaml.org,2002:")]

def standardKinds : List (String × Kind) :=
  [("null", .null), ("bool", .bool), ("int", .int), ("float", .float), ("binary", .bytes),
    ("timestamp", .timestamp), ("omap", .pairs), ("pairs", .pairs), ("set", .set),
    ("str", .text), ("seq", .sequence), ("map", .mapping), ("merge", .merge),
    ("value", .default)]

def kindOfName (uri : String) : Kind :=
  match standardKinds.find? fun (name, _) => "tag:yaml.org,2002:" ++ name == uri with
  | some (_, kind) => kind
  | none => .unknown

/-- The kind that a tag names. The tag `!` leaves it to the text. -/
def kindOfTag : Option Token → Reading (Option Kind)
  | some (.tag none rest) => return if rest == "!" then none else some (kindOfName rest)
  | some (.tag (some handle) rest) => do
    match (← get).handles.lookup handle <|> standardHandles.lookup handle with
    | none => throw .unknownTagHandle
    | some lead => return some (kindOfName (lead ++ rest))
  | _ => return none

structure Properties where
  anchor : Option String := none
  tag : Option Token := none

def properties : Reading Properties := do
  match ← next with
  | .anchor name =>
    drop
    match ← next with
    | .tag h t =>
      drop
      return { anchor := some name, tag := some (.tag h t) }
    | _ => return { anchor := some name }
  | .tag h t =>
    drop
    match ← next with
    | .anchor name =>
      drop
      return { anchor := some name, tag := some (.tag h t) }
    | _ => return { tag := some (.tag h t) }
  | _ => return {}

/-! ## Content -/

def nothing : Reading Nat := enter none ⟨.null, .scalar []⟩

inductive Place where
  /-- Inside of brackets or braces. -/
  | flow
  | block
  /-- A value of a block mapping, whose sequence need not be indented. -/
  | value
  deriving DecidableEq

/-- How many collections may stand within each other. -/
def maxDepth : Nat := 490

/-- Takes a collection in, then reads its members and puts them in. -/
def collection (anchor : Option String) (kind : Kind) (members : Reading Shape) :
    Reading Nat := do
  if maxDepth < (← get).depth then throw .tooDeep
  let id ← enter anchor ⟨kind, .sequence []⟩
  modify fun r => { r with depth := r.depth + 1 }
  fill id (← members)
  modify fun r => { r with depth := r.depth - 1 }
  return id

mutual

def node (place : Place) : Nat → Reading Nat
  | 0 => throw .unexpectedToken
  | fuel + 1 => do
    match ← next with
    | .alias name =>
      match (← get).anchors.lookup name with
      | none => throw (.unknownAlias name)
      | some id =>
        drop
        return id
    | _ =>
      let p ← properties
      content place p (← kindOfTag p.tag) fuel

def content (place : Place) (p : Properties) (kind : Option Kind) :
    Nat → Reading Nat
  | 0 => throw .unexpectedToken
  | fuel + 1 => do
    let list := fun (items : Reading (List Nat)) =>
      collection p.anchor (kind.getD .sequence) (Shape.sequence <$> items)
    let table := fun (entries : Reading (List (Nat × Nat))) =>
      collection p.anchor (kind.getD .mapping) (Shape.mapping <$> entries)
    match ← next with
    | .scalar text plain =>
      let resolved := if plain || p.tag.isSome then Kind.ofPlain text else .text
      let id ← enter p.anchor ⟨kind.getD resolved, .scalar text⟩
      drop
      return id
    | .flowSequenceStart => list (do drop; flowItems true fuel)
    | .flowMappingStart => table (do drop; flowEntries true fuel)
    | t =>
      if t = .blockEntry ∧ place = .value then list (bareItems fuel)
      else if t = .blockSequenceStart ∧ place ≠ .flow then
        list (do drop; blockItems fuel)
      else if t = .blockMappingStart ∧ place ≠ .flow then
        table (do drop; blockEntries fuel)
      else if p.anchor.isSome || p.tag.isSome then
        enter p.anchor ⟨kind.getD .null, .scalar []⟩
      else throw .unexpectedToken

/-- A node, or nothing before one of the given tokens. -/
def nodeUnless (place : Place) (stops : List Token) : Nat → Reading Nat
  | 0 => throw .unexpectedToken
  | fuel + 1 => do
    if stops.contains (← next) then nothing else node place fuel

/-- The value behind a `:`, or nothing if there is no `:`. -/
def valueUnless (place : Place) (stops : List Token) : Nat → Reading Nat
  | 0 => throw .unexpectedToken
  | fuel + 1 => do
    if (← next) = .value then
      drop
      nodeUnless place stops fuel
    else nothing

def blockItems : Nat → Reading (List Nat)
  | 0 => throw .unexpectedToken
  | fuel + 1 => do
    match ← next with
    | .blockEntry =>
      drop
      let item ← nodeUnless .block [.blockEntry, .blockEnd] fuel
      return item :: (← blockItems fuel)
    | .blockEnd =>
      drop
      return []
    | _ => throw .unexpectedToken

def bareItems : Nat → Reading (List Nat)
  | 0 => throw .unexpectedToken
  | fuel + 1 => do
    match ← next with
    | .blockEntry =>
      drop
      let item ← nodeUnless .block [.blockEntry, .key, .value, .blockEnd] fuel
      return item :: (← bareItems fuel)
    | _ => return []

def blockEntries : Nat → Reading (List (Nat × Nat))
  | 0 => throw .unexpectedToken
  | fuel + 1 => do
    match ← next with
    | .key =>
      drop
      let key ← nodeUnless .value [.key, .value, .blockEnd] fuel
      let value ← valueUnless .value [.key, .value, .blockEnd] fuel
      return (key, value) :: (← blockEntries fuel)
    | .blockEnd =>
      drop
      return []
    | _ => throw .unexpectedToken

/-- The entries of a sequence in brackets. An entry may be a mapping of one pair. -/
def flowItems (first : Bool) : Nat → Reading (List Nat)
  | 0 => throw .unexpectedToken
  | fuel + 1 => do
    if (← next) = .flowSequenceEnd then
      drop
      return []
    if !first then
      if (← next) = .flowEntry then drop else throw .unexpectedToken
    if (← next) = .flowSequenceEnd then
      drop
      return []
    let item ←
      if (← next) = .key then
        collection none .mapping (do
          drop
          let key ← nodeUnless .flow [.value, .flowEntry, .flowSequenceEnd] fuel
          let value ← valueUnless .flow [.flowEntry, .flowSequenceEnd] fuel
          return .mapping [(key, value)])
      else node .flow fuel
    return item :: (← flowItems false fuel)

def flowEntries (first : Bool) : Nat → Reading (List (Nat × Nat))
  | 0 => throw .unexpectedToken
  | fuel + 1 => do
    if (← next) = .flowMappingEnd then
      drop
      return []
    if !first then
      if (← next) = .flowEntry then drop else throw .unexpectedToken
    if (← next) = .flowMappingEnd then
      drop
      return []
    let entry ←
      if (← next) = .key then do
        drop
        let key ← nodeUnless .flow [.value, .flowEntry, .flowMappingEnd] fuel
        let value ← valueUnless .flow [.flowEntry, .flowMappingEnd] fuel
        pure (key, value)
      else do
        let key ← node .flow fuel
        pure (key, ← nothing)
    return entry :: (← flowEntries false fuel)

end

/-! ## Documents -/

/-- Reads the directives before a document, of which one may give a version, and that must
be a version 1. -/
def directives (versionSeen : Bool) : Nat → Reading Unit
  | 0 => return
  | fuel + 1 => do
    match ← next with
    | .directive name arguments =>
      drop
      if name = "YAML" then
        if versionSeen || (arguments.headD "").toList.dropWhile (· == '0') != ['1'] then
          throw .badDirective
        directives true fuel
      else
        match arguments with
        | [handle, lead] =>
          if ((← get).handles.lookup handle).isSome then throw .badDirective
          modify fun r => { r with handles := (handle, lead) :: r.handles }
          directives versionSeen fuel
        | _ => directives versionSeen fuel
    | _ => return

def isDirective : Token → Bool
  | .directive _ _ => true
  | _ => false

/-- Whether a document that has been opened ends before the token, with nothing in it. -/
def endsDocument (t : Token) : Bool :=
  isDirective t || [.documentStart, .documentEnd, .streamEnd].contains t

def opening (fuel : Nat) : Reading Unit := do
  modify fun r => { r with handles := [] }
  directives false fuel
  if (← next) ≠ .documentStart then throw .unexpectedToken
  drop

def explicitDocument (fuel : Nat) : Reading Nat := do
  opening fuel
  if endsDocument (← next) then nothing else node .block fuel

def documentEnds : Nat → Reading Unit
  | 0 => return
  | fuel + 1 => do
    if (← next) = .documentEnd then
      drop
      documentEnds fuel

/-- The node of the one document of a text, none if the text is empty. -/
def document (fuel : Nat) : Reading (Option Nat) := do
  let t ← next
  if t = .streamEnd then return none
  let root ←
    if isDirective t || t = .documentStart then explicitDocument fuel
    else node .block fuel
  documentEnds fuel
  if (← next) ≠ .streamEnd then
    opening fuel
    throw .severalDocuments
  return some root

end Node

def Graph.ofScan? (s : Scan) : Except Fault (Option Graph) := do
  let fuel := 6 * s.tokens.length + 8
  let (root, r) ← (Node.document fuel).run { tokens := s.tokens, fault := s.fault }
  return root.map fun root => { nodes := r.nodes, root := root }

end RomListing.Yaml

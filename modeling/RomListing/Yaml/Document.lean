import RomListing.Yaml.Members
import RomListing.Yaml.Node
import RomListing.Yaml.Scalar

/-!
# Values of YAML documents

The data that the text of a document stands for. Containers are made when they are first
met and filled in the order in which they were made, so a container may come to hold itself,
and of two faults the one that is less deep shows. Of two entries with one key the later
value stands at the earlier place; an entry `<<` puts the entries of other mappings first.
-/

namespace RomListing.Yaml

inductive LoadError where
  | fault (f : Fault)
  | scalar (e : BadScalar)
  deriving DecidableEq

def LoadError.message : LoadError → String
  | .fault f => f.message
  | .scalar e => e.message

namespace Document

/-- The data so far. Merging changes nodes, so they are part of the state. -/
structure Builder where
  nodes : Array Node
  data : Data := {}
  /-- The containers of the nodes that have one. -/
  made : Array (Option Nat)
  /-- Nodes with their containers, in the order in which these were made. -/
  queue : Array (Nat × Nat) := #[]

abbrev Building := StateT Builder (Except LoadError)

def fail (f : Fault) : Building α := throw (.fault f)

def scalarOf (r : Except BadScalar α) : Building α :=
  match r with
  | .ok a => return a
  | .error e => throw (.scalar e)

def nodeAt (id : Nat) : Building Node := do
  return (← get).nodes[id]?.getD ⟨.unknown, .scalar []⟩

def changeNode (id : Nat) (f : Node → Node) : Building Unit :=
  modify fun b => { b with nodes := b.nodes.modify id f }

def put (c : Container) : Building Nat :=
  modifyGet fun b =>
    let (_, data) := b.data.put c
    (b.data.containers.size, { b with data := data })

/-! ## Scalars -/

/-- The text of a node. That of a mapping stands under its first default key. -/
def textOf : Nat → Nat → Building Text
  | 0, _ => scalarOf (.error .cycle)
  | fuel + 1, id => do
    match (← nodeAt id).shape with
    | .scalar text => return text
    | .sequence _ => fail .wrongShape
    | .mapping entries =>
      match ← entries.findM? fun (k, _) => return (← nodeAt k).kind = .default with
      | none => fail .wrongShape
      | some (_, v) => textOf fuel v

/-- The value of a node whose kind is not that of a container. -/
def scalar (id : Nat) (n : Node) : Building Value := do
  let size := (← get).nodes.size
  match n.kind with
  | .null =>
    let _ ← textOf (size + 1) id
    return .null
  | .bool => scalarOf (Scalar.boolValue (← textOf (size + 1) id))
  | .int => scalarOf (Scalar.intValue (← textOf (size + 1) id))
  | .float => return .float (← scalarOf (Scalar.floatBits (← textOf (size + 1) id) (id + 1)))
  | .text => return .text (← textOf (size + 1) id)
  | .bytes =>
    match Scalar.bytesValue? (← textOf (size + 1) id) with
    | some v => return v
    | none => fail .badBytes
  | .timestamp =>
    let text ← textOf (size + 1) id
    match n.shape with
    | .scalar _ => scalarOf (Scalar.stampValue text)
    | _ => scalarOf (.error .stampOfMapping)
  | _ => fail .unknownTag

def emptyContainer : Kind → Option Container
  | .sequence => some (.list [])
  | .pairs => some (.list [])
  | .mapping => some (.mapping [])
  | .set => some (.set [])
  | _ => none

/-- The value of a node. A container is made once and is to be filled later. -/
def value (id : Nat) : Building Value := do
  match (← get).made[id]?.join with
  | some c => return .container c
  | none =>
    let n ← nodeAt id
    match emptyContainer n.kind with
    | none => scalar id n
    | some c =>
      let place ← put c
      modify fun b =>
        { b with made := b.made.setIfInBounds id (some place), queue := b.queue.push (id, place) }
      return .container place

/-! ## Merging -/

/-- Takes the first `<<` entry out of a mapping and gives its value. -/
def takeMerge (id : Nat) : Building (Option Nat) := do
  match (← nodeAt id).shape with
  | .mapping entries =>
    let nodes := (← get).nodes
    let isMerge : Nat × Nat → Bool := fun (k, _) => (nodes[k]?.map Node.kind) == some .merge
    match entries.find? isMerge with
    | none => return none
    | some (_, v) =>
      changeNode id fun n => { n with shape := .mapping (entries.eraseP isMerge) }
      return some v
  | _ => return none

def entriesOf (id : Nat) : Building (List (Nat × Nat)) := do
  match (← nodeAt id).shape with
  | .mapping entries => return entries
  | _ => fail .badMerge

def putBefore (id : Nat) (more : List (Nat × Nat)) : Building Unit := do
  let entries ← entriesOf id
  changeNode id fun n => { n with shape := .mapping (more ++ entries) }

/-- Default keys of a mapping are texts. -/
def nameDefaults (id : Nat) : Building Unit := do
  for (k, _) in ← entriesOf id do
    changeNode k fun n => if n.kind = .default then { n with kind := .text } else n

mutual

/-- Replaces the `<<` entries of a mapping by those that they name, put first. -/
def merge : Nat → Nat → Building Unit
  | 0, _ => return
  | fuel + 1, id => do
    let _ ← entriesOf id
    let merged ← mergedEntries fuel id
    nameDefaults id
    putBefore id merged

/-- Takes the `<<` entries out of a mapping and gives what they name. Of mappings in a
sequence the last one comes first. -/
def mergedEntries : Nat → Nat → Building (List (Nat × Nat))
  | 0, _ => return []
  | fuel + 1, id => do
    match ← takeMerge id with
    | none => return []
    | some v =>
      let source := fun v => do
        merge fuel v
        entriesOf v
      let here ← match (← nodeAt v).shape with
        | .sequence items => do pure (← items.mapM source).reverse.flatten
        | _ => source v
      return here ++ (← mergedEntries fuel id)

end

def entryCount (nodes : Array Node) : Nat :=
  nodes.foldl (fun sum n => match n.shape with
    | .mapping entries => sum + entries.length
    | _ => sum) 0

/-! ## Containers -/

/-- Puts an entry in; a key that is there keeps its place. -/
def insert (key value : Value) : List (Value × Value) → List (Value × Value)
  | [] => [(key, value)]
  | (k, v) :: rest =>
    if Scalar.sameKey k key then (k, value) :: rest else (k, v) :: insert key value rest

def entries (id : Nat) : Building (List (Value × Value)) := do
  match (← nodeAt id).shape with
  | .mapping _ =>
    merge (3 * entryCount (← get).nodes + 3) id
    (← entriesOf id).foldlM (fun acc (k, v) => do
      let key ← value k
      if key.isContainer then fail .unhashableKey
      return insert key (← value v) acc) []
  | _ => fail .wrongShape

def items (id : Nat) : Building (List Nat) := do
  match (← nodeAt id).shape with
  | .sequence items => return items
  | _ => fail .wrongShape

def pair (id : Nat) : Building Value := do
  match (← nodeAt id).shape with
  | .mapping [(k, v)] => do
    let first ← value k
    let second ← value v
    return .container (← put (.pair first second))
  | _ => fail .wrongShape

def contents (id : Nat) : Building Container := do
  match (← nodeAt id).kind with
  | .pairs => return .list (← (← items id).mapM pair)
  | .mapping => return .mapping (← entries id)
  | .set => return .set (Members.ordered ((← entries id).map Prod.fst))
  | _ => return .list (← (← items id).mapM value)

/-- Fills the containers of the queue from a place on, with those that are made meanwhile. -/
def fillFrom : Nat → Nat → Building Unit
  | 0, _ => return
  | fuel + 1, k => do
    match (← get).queue[k]? with
    | none => return
    | some (id, place) =>
      let c ← contents id
      modify fun b =>
        { b with data :=
          { b.data with containers := b.data.containers.setIfInBounds place c } }
      fillFrom fuel (k + 1)

/-- Makes the value of the root and fills all containers. A node has one container at most,
so the number of nodes bounds the queue. -/
def build (root : Nat) : Building Value := do
  let v ← value root
  fillFrom ((← get).nodes.size + 1) 0
  return v

def dataOf (g : Graph) : Except LoadError Data := do
  let start : Builder := { nodes := g.nodes, made := .replicate g.nodes.size none }
  let (root, b) ← (build g.root).run start
  return { b.data with root := root }

end Document

/-- The data of a text; an empty one has none. -/
def load (text : Text) : Except LoadError (Option Data) :=
  match Graph.ofScan? (tokens text) with
  | .error f => .error (.fault f)
  | .ok none => .ok none
  | .ok (some g) => (Document.dataOf g).map some

end RomListing.Yaml

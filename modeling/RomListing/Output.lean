import RomListing.Item
import Std.Data.TreeSet

/-!
# The output store

A pass writes items and labels into the store. Of several items at one address the last
one added stands for the address.
-/

namespace RomListing

/-- A label with the addresses that refer to it, in the order they were found. -/
structure Label where
  address : Int
  references : List Int := []
  deriving DecidableEq

/-- A use of the address `target` by what stands at `source`. -/
structure Reference where
  target : Int
  source : Int
  deriving DecidableEq

structure Output where
  items : Array Item := #[]
  /-- The labels in the order they were made, one for an address. -/
  labels : List Label := []
  deriving DecidableEq

namespace Output

def add (o : Output) (item : Item) : Output := { o with items := o.items.push item }

def addAll (o : Output) (items : List Item) : Output := items.foldl add o

def get? (o : Output) (address : Int) : Option Item :=
  o.items.toList.reverse.find? (·.address == address)

/-- Gives the label at `address`, made if there is none, one more reference. -/
def noteLabel (address : Int) (source : Option Int) : List Label → List Label
  | [] => [⟨address, source.toList⟩]
  | l :: rest =>
    if l.address = address then
      match source with
      | none => l :: rest
      | some s => { l with references := l.references ++ [s] } :: rest
    else l :: noteLabel address source rest

def createLabel (o : Output) (address : Int) (source : Option Int) : Output :=
  { o with labels := noteLabel address source o.labels }

def label? (o : Output) (address : Int) : Option Label :=
  o.labels.find? (·.address == address)

def hasLabelAt (o : Output) (address : Int) : Bool := o.labels.any (·.address == address)

def refer (o : Output) (rs : List Reference) : Output :=
  rs.foldl (fun o r => o.createLabel r.target (some r.source)) o

def modify (o : Output) (address : Int) (f : Item → Item) : Output :=
  { o with items := o.items.toList.foldr (fun item (acc : List Item × Bool) =>
      if acc.2 || item.address != address then (item :: acc.1, acc.2)
      else (f item :: acc.1, true)) ([], false) |>.1.toArray }

/-- Flags, from the last item back, the first item met at each address of `wanted`. -/
def flag (wanted : Std.TreeSet Int) : List Item → List Item × Std.TreeSet Int
  | items => items.foldr (fun item (acc : List Item × Std.TreeSet Int) =>
      if acc.2.contains item.address then
        ({ item with hasLabel := true } :: acc.1, acc.2.erase item.address)
      else (item :: acc.1, acc.2)) ([], wanted)

def fixup (o : Output) : Output :=
  if o.labels.isEmpty then o
  else
    { o with items :=
        (flag (.ofList (o.labels.map Label.address) compare) o.items.toList).1.toArray }

end Output

end RomListing

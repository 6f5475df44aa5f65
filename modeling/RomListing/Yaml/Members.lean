import RomListing.Yaml.Scalar

/-!
# Order of the members of a set

A set of numbers gives its members in the order of their places in a table. A number takes
the place that its residue names or, if that is taken, the first free one of those that
follow from it.
-/

namespace RomListing.Yaml.Members

def modulus : Nat := Nat.pow 2 61 - 1

def infinityResidue : Int := 314159

/-- The residue of a binary fraction. Twice a number has twice its residue, so that of a
fraction is taken with the exponent below 61. -/
def fractionResidue (bits : UInt64) : Option Int :=
  let x := BinaryFraction.ofDouble bits
  let sign : Int := if x.negative then -1 else 1
  if bits.toNat / Nat.pow 2 52 % Nat.pow 2 11 = 2047 then
    if bits.toNat % Nat.pow 2 52 = 0 then some (sign * infinityResidue) else none
  else some (sign * (x.mantissa * Nat.pow 2 (x.exponent % 61).toNat % modulus : Nat))

/-- The residue of a number as a word of 64 bits. That of the number -1 is that of -2. -/
def residue? (v : Value) : Option Nat := do
  let r : Int ← match v with
    | .float bits => fractionResidue bits
    | v => (Scalar.number? v).map fun n => n.sign * (n.natAbs % modulus : Nat)
  return ((if r = -1 then -2 else r) % Nat.pow 2 64).toNat

def tableSize (count : Nat) : Nat := if count < 5 then 8 else Nat.pow 2 ((2 * count).log2 + 1)

/-- The first free place from `i` on. Ten neighbours are tried together unless the table
ends before; the next try is elsewhere, and the rest of the residue tells where. -/
def freePlace? (table : Array (Option Value)) : Nat → Nat → Nat → Option Nat
  | 0, _, _ => none
  | tries + 1, rest, i =>
    let run := if i + 9 < table.size then 10 else 1
    match (List.range' i run).find? fun k => (table[k]?.join).isNone with
    | some k => some k
    | none => freePlace? table tries (rest / 32) ((5 * i + 1 + rest / 32) % table.size)

/-- The rest of a residue is used up after 13 tries, and then every place comes up. -/
def place (table : Array (Option Value)) (member : Value × Nat) : Array (Option Value) :=
  let (v, residue) := member
  match freePlace? table (table.size + 13) residue (residue % table.size) with
  | some k => table.setIfInBounds k (some v)
  | none => table

/-- The members of a set, which are given in the order of writing. Others than numbers keep
that order. -/
def ordered (members : List Value) : List Value :=
  match members.mapM residue? with
  | none => members
  | some residues =>
    let empty := Array.replicate (tableSize members.length) none
    ((members.zip residues).foldl place empty).toList.filterMap id

example : ordered [.int 3, .int 1, .int 2] = [.int 1, .int 2, .int 3] := by
  decide +kernel

example : ordered [.int 8, .int 0, .int (-1)] = [.int 8, .int 0, .int (-1)] := by
  decide +kernel

end RomListing.Yaml.Members

import RomListing.Extension

/-!
# Scripted extensions

An extension driven by a table: it reads a fixed number of bytes where the table names
the opcode, and keeps a journal of how it was called.
-/

namespace RomListing

inductive Extension.Call where
  | start (r : Region)
  | before (sight : Sight)
  | after (address : Int)
  | custom (r : Region)
  deriving DecidableEq

structure Script where
  /-- How many bytes are read at an opcode. -/
  claims : List (Int × Nat) := []
  /-- Custom regions are listed as one item. -/
  custom : Bool := false
  /-- The label that every reading of bytes refers to. -/
  label : Option Int := none

namespace Script

abbrev Journal := Array Extension.Call

def dump (s : Setting) (last : Int) : Nat → Cursor → List UInt8 × Cursor
  | 0, c => ([], c)
  | fuel + 1, c =>
    if c.offset ≤ last ∧ (c.peek s 0).beyond = false then
      let (b, c) := c.fetch s
      let (bs, c) := dump s last fuel c
      (b :: bs, c)
    else ([], c)

def claim (script : Script) (s : Setting) (count : Nat) (c : Cursor) (journal : Journal) :
    Step Journal :=
  let (bytes, after) := c.fetchMany s count
  let address := s.shownAddress c.offset
  if count = 0 then { handled := true, state := journal, cursor := after }
  else
    { handled := true
      state := journal
      cursor := after
      items := [{ address := address, opcodes := bytes, text := "claimed" }]
      references := (script.label.map fun l => ⟨wrap l, address⟩).toList }

def before (script : Script) (s : Setting) (c : Cursor) (journal : Journal) : Step Journal :=
  let sight := c.peek s 0
  let journal := journal.push (.before sight)
  let declined : Step Journal := { handled := false, state := journal, cursor := c }
  if sight.beyond then declined
  else
    match script.claims.lookup (sight.value.toNat : Int) with
    | none => declined
    | some count => script.claim s count c journal

def customRegion (script : Script) (s : Setting) (r : Region) (c : Cursor)
    (journal : Journal) : Step Journal :=
  let journal := journal.push (.custom r)
  if script.custom then
    let (bytes, after) := dump s r.last r.length c
    { handled := true
      state := journal
      cursor := after
      items := [{ address := s.shownAddress r.first, opcodes := bytes, text := "dump" }] }
  else { handled := false, state := journal, cursor := c }

def extension (script : Script) : Extension Journal where
  enter r journal := (journal.push (.start r), [])
  before := script.before
  after _ item journal := { state := journal.push (.after item.address) }
  custom := script.customRegion

end Script

end RomListing

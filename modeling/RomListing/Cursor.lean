import RomListing.Image
import RomListing.Options
import RomListing.Word

/-!
# Reading bytes

A cursor moves over an image one byte at a time. It stops at the first byte that is not
there and remembers that it did.
-/

namespace RomListing

/-- What a pass reads and never changes. -/
structure Setting where
  image : Image
  /-- Added to a place in the image to give the address that items show. -/
  addressOffset : Int := 0
  options : Options := {}

namespace Setting

def shownAddress (s : Setting) (place : Int) : Int := wrap (place + s.addressOffset)

end Setting

inductive IndexRegister where
  | none
  | ix
  | iy
  /-- A number that names no register; it reads as `iy`. -/
  | other (number : Int)
  deriving DecidableEq, Repr

namespace IndexRegister

def number : IndexRegister → Int
  | .none => 0
  | .ix => 1
  | .iy => 2
  | .other n => n

def ofNumber (n : Int) : IndexRegister :=
  if n = 0 then .none else if n = 1 then .ix else if n = 2 then .iy else .other n

theorem number_ofNumber (n : Int) : (ofNumber n).number = n := by
  unfold ofNumber
  split
  · simp_all [number]
  · split
    · simp_all [number]
    · split <;> simp_all [number]

end IndexRegister

structure Cursor where
  /-- The place of the next byte. -/
  offset : Int
  /-- The place of the first byte of the instruction being read. -/
  opStart : Int := 0
  /-- The bytes of the instruction that have been read. -/
  taken : Array UInt8 := #[]
  /-- A byte was asked for that the image does not have. -/
  overflow : Bool := false
  /-- The byte that selected the pattern of the instruction being read. -/
  opcode : Int := 0
  index : IndexRegister := .none
  displacement : Option Int := none
  deriving DecidableEq

structure Sight where
  place : Int
  beyond : Bool
  value : UInt8
  partition : Option Text
  deriving DecidableEq

namespace Cursor

/-- Starts a new instruction; the overflow mark and the last opcode stay. -/
def begin (c : Cursor) : Cursor :=
  { c with opStart := c.offset, taken := #[], displacement := none, index := .none }

/-- Reads one byte; past the image it is 0 and the cursor stays. -/
def fetch (s : Setting) (c : Cursor) : UInt8 × Cursor :=
  match s.image.byte? c.offset with
  | none => (0, { c with overflow := true })
  | some b => (b, { c with taken := c.taken.push b, offset := c.offset + 1 })

def fetchMany (s : Setting) : Nat → Cursor → List UInt8 × Cursor
  | 0, c => ([], c)
  | n + 1, c =>
    let (b, c) := c.fetch s
    let (bs, c) := fetchMany s n c
    (b :: bs, c)

def fetchWord (s : Setting) (c : Cursor) : Nat × Cursor :=
  let (low, c) := c.fetch s
  let (high, c) := c.fetch s
  (low.toNat + 0x100 * high.toNat, c)

/-- Looks `ahead` places on and moves nothing. -/
def peek (s : Setting) (c : Cursor) (ahead : Int) : Sight :=
  let place := c.offset + ahead
  { place := place
    beyond := (s.image.byte? place).isNone
    value := s.image.byteAt place
    partition := s.options.partitionAt place }

/-- Reads one byte and tells what `peek` tells, with the overflow mark as it is afterwards. -/
def sight (s : Setting) (c : Cursor) : Sight × Cursor :=
  let (b, after) := c.fetch s
  ({ place := c.offset
     beyond := after.overflow
     value := b
     partition := s.options.partitionAt c.offset }, after)

end Cursor

end RomListing

/-!
# Memory images

The contents of a stretch of memory that starts at a base address.
-/

namespace RomListing

structure Image where
  bytes : Array UInt8
  base : Int := 0

namespace Image

/-- The address of the last byte; one before the base when there is none. -/
def last (m : Image) : Int := m.base + m.bytes.size - 1

def byte? (m : Image) (address : Int) : Option UInt8 :=
  if address < m.base then none else m.bytes[(address - m.base).toNat]?

/-- The byte at the address, 0 outside of the image. -/
def byteAt (m : Image) (address : Int) : UInt8 := (m.byte? address).getD 0

theorem byte?_isSome_iff {m : Image} {a : Int} :
    (m.byte? a).isSome ↔ m.base ≤ a ∧ a ≤ m.last := by
  unfold byte? last
  split
  · simp; omega
  · simp; omega

end Image

end RomListing

import RomListing.Pattern

/-!
# Operands

The replacements that every instruction set makes: numbers read from the image, and uses
of labels.
-/

namespace RomListing.Operand

def number (text : String) (value : Int) : Replacement := { text := text, value := some value }

def label (s : Setting) (c : Cursor) (address : Int) : Replacement :=
  let target := wrap address
  { text := s.options.labelName target
    value := some target
    isLabel := true
    reference := some ⟨target, s.shownAddress c.opStart⟩ }

def byte (s : Setting) (form : Int → String) (c : Cursor) : Replacement × Cursor :=
  let (b, c) := c.fetch s
  (number (form b.toNat) b.toNat, c)

def word (s : Setting) (form : Int → String) (c : Cursor) : Replacement × Cursor :=
  let (w, c) := c.fetchWord s
  (number (form w) w, c)

def absolute (s : Setting) (c : Cursor) : Replacement × Cursor :=
  let (w, c) := c.fetchWord s
  (label s c w, c)

/-- Reads the distance from the end of a two-byte instruction to a label. -/
def relative (s : Setting) (c : Cursor) : Replacement × Cursor :=
  let (b, c) := c.fetch s
  (label s c (s.addressOffset + c.opStart + 2 + signedByte b.toNat), c)

end RomListing.Operand

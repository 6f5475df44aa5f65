import RomListing.Numeral
import RomListing.Text.Basic
import RomListing.Word

/-!
# Items of a disassembly

An item is one line of the result: an instruction, a data line or a gap.
-/

namespace RomListing

structure Item where
  address : Int
  /-- The bytes of the item, in memory order. -/
  opcodes : List UInt8 := []
  text : Text := []
  partition : Option Text := none
  hasLabel : Bool := false
  hasSymbol : Bool := false
  hasLabelSymbol : Bool := false
  symbolValue : Option Int := none
  /-- Where the operand that stands for the symbol starts in `text`. -/
  tokenPosition : Option Int := none
  tokenLength : Option Int := none
  /-- The item adds to the one before it, at the same address. -/
  continuation : Bool := false
  /-- A remark of the machine's conventions. -/
  remark : Option Text := none
  /-- A remark of the project. -/
  comment : Option Text := none
  timing : Int := 0
  /-- The time an instruction takes when its branch is not taken. -/
  altTiming : Int := 0
  deriving DecidableEq

namespace Item

/-- The address of the item's last byte; an item without bytes counts as one long. -/
def lastAddress (item : Item) : Int :=
  wrap (item.address + (max item.opcodes.length 1 : Nat) - 1)

def opcodeText (item : Item) : String :=
  " ".intercalate (item.opcodes.map fun b => Numeral.hex2 b.toNat)

end Item

end RomListing

import RomListing.Numeral
import RomListing.Text.Basic
import RomListing.Word

/-!
# Listing options and operand numerals
-/

namespace RomListing

structure Options where
  /-- Operands and labels are written in decimal. -/
  decimal : Bool := false
  /-- Labels are written after `$` and not after `L`. -/
  bareLabels : Bool := false
  /-- The additional instructions of the Spectrum Next are recognised. -/
  extended : Bool := false
  /-- The ROM page that is switched in, when it is known. -/
  romPage : Option Int := none
  /-- Names of the 8K partitions of the address space, from address 0 up. -/
  partitions : Option (List Text) := none

namespace Options

open Numeral

def byteText (o : Options) (v : Int) : String :=
  if o.decimal then Numeral.decimal v else "$" ++ hex2 v

def wordText (o : Options) (v : Int) : String :=
  if o.decimal then Numeral.decimal v else "$" ++ hex4 v

def labelNumeral (o : Options) (address : Int) : String :=
  if o.decimal then decimal5 address else hex4 address

def labelLead (o : Options) : String := if o.bareLabels then "$" else "L"

def labelName (o : Options) (address : Int) : String := o.labelLead ++ o.labelNumeral address

/-- The name of the 8K partition that the address lies in. -/
def partitionAt (o : Options) (address : Int) : Option Text :=
  o.partitions.bind fun names => names[(wrap address / 0x2000).toNat]?

end Options

end RomListing

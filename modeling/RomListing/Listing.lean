import RomListing.Options
import RomListing.Output
import RomListing.Text.Characters

/-!
# Listings

The lines of an output: before an item with a label a line with the label's name, then
the item's address, bytes, text and remarks in columns.
-/

namespace RomListing

structure Listing where
  showBytes : Bool := true
  labelLead : Text := "L"
  decimal : Bool := false

namespace Listing

/-- The listing whose labels are named as operands name them. -/
def ofOptions (o : Options) (showBytes : Bool) : Listing :=
  { showBytes := showBytes, labelLead := o.labelLead, decimal := o.decimal }

/-- Fills a column with blanks; longer texts stay whole. -/
def column (width : Nat) (text : Text) : Text := text.rightpad width ' '

def labelName (l : Listing) (address : Int) : Text :=
  l.labelLead ++ if l.decimal then Numeral.decimal5 address else Numeral.hex4 address

/-- Both remarks of an item, of which empty ones do not count. -/
def remarks (item : Item) : Text :=
  Text.join " " ((item.remark.toList ++ item.comment.toList).filter (!·.isEmpty))

def line (l : Listing) (item : Item) : Text :=
  let head : Text := "  " ++ Numeral.hex4 item.address ++ "  "
  let bytes : Text := if l.showBytes then column 12 item.opcodeText ++ " " else []
  let remarks := remarks item
  let text := if remarks.isEmpty then item.text else column 24 item.text ++ " ; " ++ remarks
  Text.dropEnd (·.is Text.isBlank) (head ++ bytes ++ text)

/-- The lines of one item; an item that adds to another one shows no label. -/
def itemLines (l : Listing) (o : Output) (item : Item) : List Text :=
  let labelled := !item.continuation && (item.hasLabel || o.hasLabelAt item.address)
  if labelled then [l.labelName item.address ++ ":", l.line item] else [l.line item]

def lines (l : Listing) (o : Output) : List Text := o.items.toList.flatMap (l.itemLines o)

def render (l : Listing) (o : Output) : Text := Text.join "\n" (l.lines o) ++ "\n"

end Listing

end RomListing

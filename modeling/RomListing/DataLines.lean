import RomListing.InstructionSet
import RomListing.Region

/-!
# Data lines

A byte region is listed eight bytes a line, a word region four words a line, with a byte
line for the last byte when their number is odd. A gap is one line without bytes.
-/

namespace RomListing

namespace InstructionSet

def dataItem (cpu : InstructionSet) (s : Setting) (place : Int) (bytes : List UInt8)
    (text : String) : Item :=
  let place := fold cpu.addressMask place
  { address := cpu.shownAddress s place
    opcodes := bytes
    text := text
    partition := s.options.partitionAt place }

def byteOperand (o : Options) (b : UInt8) : String :=
  if o.decimal then Numeral.decimal3 b.toNat else "$" ++ Numeral.hex2 b.toNat

def byteLine (cpu : InstructionSet) (s : Setting) (place : Int) (count : Nat) : Item :=
  let bytes := (List.range count).map fun (j : Nat) => s.image.byteAt (place + j)
  cpu.dataItem s place bytes
    (cpu.byteDirective ++ " " ++ ", ".intercalate (bytes.map (byteOperand s.options)))

def byteLines (cpu : InstructionSet) (s : Setting) (r : Region) : List Item :=
  (List.range ((r.length + 7) / 8)).map fun i =>
    cpu.byteLine s (r.first + 8 * i : Nat) (min 8 (r.length - 8 * i))

def wordLine (cpu : InstructionSet) (s : Setting) (place : Int) (count : Nat) : Item :=
  let pairs := (List.range count).map fun (k : Nat) =>
    (s.image.byteAt (place + 2 * k), s.image.byteAt (place + 2 * k + 1))
  cpu.dataItem s place (pairs.flatMap fun (low, high) => [low, high])
    (cpu.wordDirective ++ " " ++ ", ".intercalate
      (pairs.map fun (low, high) => s.options.wordText (low.toNat + 0x100 * high.toNat)))

def wordLines (cpu : InstructionSet) (s : Setting) (r : Region) : List Item :=
  let lines := (List.range ((r.length + 6) / 8)).map fun i =>
    cpu.wordLine s (r.first + 8 * i : Nat) (min 4 ((r.length - 8 * i) / 2))
  if r.length % 2 = 1 then lines ++ [cpu.byteLine s r.last 1] else lines

def gapLine (cpu : InstructionSet) (s : Setting) (r : Region) : Item :=
  let count := if s.options.decimal then Numeral.decimal r.length
    else "$" ++ Numeral.hex4 r.length
  cpu.dataItem s r.first [] (cpu.skipDirective ++ " " ++ count)

end InstructionSet

end RomListing

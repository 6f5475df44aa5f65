import RomListing.InstructionSet
import RomListing.Operand
import RomListing.Z80.NextRegisters
import RomListing.Z80.Patterns

/-!
# The Z80 instruction set

`CB` selects bit operations, `ED` the extended instructions, `DD` and `FD` the index
registers. After `DD CB` and `FD CB` the displacement comes before the opcode.
-/

namespace RomListing.Z80

def bitPattern (opcode : UInt8) (operand : String) : String :=
  if opcode < 0x40 then shifts.getD (opcode / 8).toNat "" ++ " " ++ operand
  else if opcode < 0x80 then "bit ^b," ++ operand
  else if opcode < 0xC0 then "res ^b," ++ operand
  else "set ^b," ++ operand

def extendedPattern (allowNext : Bool) (opcode : UInt8) : String :=
  if !allowNext && nextOpcodes.contains opcode.toNat then "nop"
  else (extendedPatterns.lookup opcode.toNat).getD "nop"

def indexedPattern (opcode : UInt8) : Option String :=
  indexedPatterns.lookup opcode.toNat <|> plainPatterns.lookup opcode.toNat

def usesDisplacement : List Char → Bool
  | '^' :: 'D' :: _ => true
  | _ :: rest => usesDisplacement rest
  | [] => false

/-- The pattern after `DD CB` or `FD CB`. All but the bit tests also store into a register,
unless the opcode names memory in its place. -/
def indexedBitPattern (opcode : UInt8) : String :=
  let text := bitPattern opcode "(^X^D)"
  if (0x40 ≤ opcode && opcode < 0x80) || opcode &&& 7 == 6 then text else text ++ ",^s"

def fetchOpcode (s : Setting) (c : Cursor) : UInt8 × Cursor :=
  let (b, c) := c.fetch s
  (b, { c with opcode := b.toNat })

def fetchDisplacement (s : Setting) (c : Cursor) : Cursor :=
  let (b, c) := c.fetch s
  { c with displacement := some b.toNat }

def selectIndexed (s : Setting) (c : Cursor) : Selection :=
  let (b, c) := fetchOpcode s c
  if b = 0xCB then
    let (b, c) := fetchOpcode s (fetchDisplacement s c)
    ⟨some (indexedBitPattern b), 12, c⟩
  else
    match indexedPattern b with
    | none => ⟨none, 8, c⟩
    | some text =>
      ⟨some text, 8, if usesDisplacement text.toList then fetchDisplacement s c else c⟩

def select (s : Setting) (c : Cursor) : Selection :=
  let (b, c) := fetchOpcode s c
  if b = 0xED then
    let (b, c) := fetchOpcode s c
    ⟨some (extendedPattern s.options.extended b), 8, c⟩
  else if b = 0xCB then
    let (b, c) := fetchOpcode s c
    ⟨some (bitPattern b "^s"), 8, c⟩
  else if b = 0xDD then selectIndexed s { c with index := .ix }
  else if b = 0xFD then selectIndexed s { c with index := .iy }
  else ⟨plainPatterns.lookup b.toNat, 4, c⟩

/-- The signed distance behind an index register; none is written for 0. The low byte of
the number decides about its sign. -/
def displacementText (o : Options) : Option Int → String
  | none => ""
  | some d =>
    if d = 0 then ""
    else if signedByte d < 0 then "-" ++ o.byteText (0x100 - d)
    else "+" ++ o.byteText d

def indexName (c : Cursor) (ix iy : String) : Replacement :=
  { text := if c.index = .ix then ix else iy }

def expand (s : Setting) : Expander := fun letter c =>
  match letter with
  | .char 'b' => ({ text := Numeral.decimal (c.opcode / 8 % 8) }, c)
  | .char 'r' => Operand.relative s c
  | .char 'R' => ({ text := s.options.byteText (c.opcode - 0xC7) }, c)
  | .char 'L' => Operand.absolute s c
  | .char 's' => ({ text := registers.getD (c.opcode % 8).toNat "" }, c)
  | .char 'B' => Operand.byte s s.options.byteText c
  | .char 'N' =>
    let (b, c) := c.fetch s
    ({ text := s.options.byteText b.toNat
       remark := (nextRegisters.lookup b.toNat).map Text.ofString }, c)
  | .char 'W' => Operand.word s s.options.wordText c
  | .char 'w' =>
    let (high, c) := c.fetch s
    let (low, c) := c.fetch s
    let value := low.toNat + 0x100 * high.toNat
    (Operand.number (s.options.wordText value) value, c)
  | .char 'X' => (indexName c "ix" "iy", c)
  | .char 'l' => (indexName c "xl" "yl", c)
  | .char 'h' => (indexName c "xh" "yh", c)
  | .char 'D' => ({ text := displacementText s.options c.displacement }, c)
  | _ => ({ text := [] }, c)

def instructionSet : InstructionSet where
  name := "Z80"
  select := select
  expand := expand
  undefinedText := "nop"
  byteDirective := ".defb"
  wordDirective := ".defw"

end RomListing.Z80

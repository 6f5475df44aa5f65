import RomListing.InstructionSet
import RomListing.Mos6502.Patterns
import RomListing.Operand

/-!
# The 6502 instruction set

One opcode byte selects the pattern; the letter of an operand is its addressing mode.
-/

namespace RomListing.Mos6502

def select (s : Setting) (c : Cursor) : Selection :=
  let (b, c) := c.fetch s
  ⟨patterns.lookup b.toNat, 2, { c with opcode := b.toNat }⟩

def expand (s : Setting) : Expander := fun letter c =>
  let byte := s.options.byteText
  let word := s.options.wordText
  match letter with
  | .char 'I' => Operand.byte s (fun v => "#" ++ byte v) c
  | .char 'Z' => Operand.byte s byte c
  | .char 'X' => Operand.byte s (fun v => byte v ++ ",x") c
  | .char 'Y' => Operand.byte s (fun v => byte v ++ ",y") c
  | .char 'N' => Operand.byte s (fun v => "(" ++ byte v ++ ",x)") c
  | .char 'M' => Operand.byte s (fun v => "(" ++ byte v ++ "),y") c
  | .char 'A' => Operand.word s word c
  | .char 'U' => Operand.word s (fun v => word v ++ ",x") c
  | .char 'V' => Operand.word s (fun v => word v ++ ",y") c
  | .char 'P' => Operand.word s (fun v => "(" ++ word v ++ ")") c
  | .char 'J' => Operand.absolute s c
  | .char 'R' => Operand.relative s c
  | _ => ({ text := [] }, c)

def instructionSet : InstructionSet where
  name := "MOS6502"
  select := select
  expand := expand
  undefinedText := "???"
  byteDirective := ".byte"
  wordDirective := ".word"

end RomListing.Mos6502

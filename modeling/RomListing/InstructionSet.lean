import RomListing.Pattern

/-!
# Instruction sets

An instruction set selects a pattern by the bytes at a cursor and knows what the letters
of its patterns stand for. Everything else about an instruction is the same for all sets.
-/

namespace RomListing

/-- The pattern text chosen for an instruction, if its opcode is defined, with the timing
of an instruction that names none. -/
structure Selection where
  text : Option String
  timing : Int
  cursor : Cursor

/-- The pattern of a selection. A text whose timing is no number counts as undefined. -/
def Selection.pattern (s : Selection) : Pattern :=
  match s.text.map (Pattern.parse · s.timing) with
  | some (.ok p) => p
  | _ => ⟨"", s.timing, 0⟩

structure InstructionSet where
  name : String
  select : Setting → Cursor → Selection
  expand : Setting → Expander
  /-- The text of an undefined opcode. -/
  undefinedText : String
  byteDirective : String
  wordDirective : String
  skipDirective : String := ".skip"
  /-- The bits of an address. -/
  addressMask : Int := 0xFFFF

/-- An instruction, the uses of labels in it, and the cursor behind it. -/
structure Decoded where
  item : Item
  references : List Reference
  cursor : Cursor

namespace InstructionSet

def shownAddress (cpu : InstructionSet) (s : Setting) (place : Int) : Int :=
  fold cpu.addressMask (place + s.addressOffset)

def decode (cpu : InstructionSet) (s : Setting) (c : Cursor) : Decoded :=
  let place := fold cpu.addressMask c.offset
  let selection := cpu.select s c.begin
  let pattern := selection.pattern
  let item : Item :=
    { address := cpu.shownAddress s place
      text := if pattern.text.isEmpty then cpu.undefinedText else pattern.text
      partition := s.options.partitionAt place
      timing := pattern.timing
      altTiming := pattern.altTiming }
  let e :=
    if pattern.text.isEmpty then { item := item, cursor := selection.cursor }
    else Pattern.expand (cpu.expand s) item selection.cursor
  { item := { e.item with opcodes := e.cursor.taken.toList }
    references := e.references
    cursor := e.cursor }

end InstructionSet

end RomListing

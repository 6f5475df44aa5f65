import RomListing.Cursor
import RomListing.Item
import RomListing.Output
import RomListing.Text.Integer

/-!
# Instruction patterns

A pattern is the text of an instruction with marks where operands go, and its timing:
`ld b,^B|7`, `djnz ^r|13/8`. A mark is `^` with a letter whose meaning belongs to the
instruction set. Marks are replaced from the left, at most four of them.
-/

namespace RomListing

structure Pattern where
  text : Text
  timing : Int
  altTiming : Int
  deriving DecidableEq

structure Replacement where
  text : Text
  /-- The number that the text stands for, when it may be given a name. -/
  value : Option Int := none
  isLabel : Bool := false
  /-- The use of a label that the operand makes. -/
  reference : Option Reference := none
  remark : Option Text := none

/-- What a letter stands for at a cursor, with the bytes of the operand read. -/
abbrev Expander := Letter → Cursor → Replacement × Cursor

namespace Pattern

/-- What stands before the first `bar`, and what follows it if there is one. -/
def cut (bar : Char) : Text → Text × Option Text
  | [] => ([], none)
  | l :: rest =>
    if l = bar then ([], some rest)
    else
      let (before, after) := cut bar rest
      (l :: before, after)

/-- Separates the timing after the bar; without one the timing is `timing` and 0. -/
def parse (text : Text) (timing : Int) : Except Text.Integer.Fault Pattern :=
  match cut '|' text with
  | (before, none) => .ok ⟨before, timing, 0⟩
  | (before, some rest) => do
    let (first, more) := cut '/' (cut '|' rest).1
    let t ← Text.Integer.read 10 first
    let alt ← match more with
      | none => pure 0
      | some text => Text.Integer.read 10 (cut '/' text).1
    return ⟨before, t, alt⟩

def splitMark : Text → Option (Text × Letter × Text)
  | [] => none
  | [.char '^'] => none
  | .char '^' :: letter :: rest => some ([], letter, rest)
  | l :: rest => (splitMark rest).map fun (before, letter, after) => (l :: before, letter, after)

def fill (item : Item) (before after : Text) (r : Replacement) : Item :=
  let item := { item with
    text := before ++ r.text ++ after
    hasLabelSymbol := item.hasLabelSymbol || r.isLabel
    remark := r.remark <|> item.remark }
  match r.value with
  | none => item
  | some v =>
    if r.text.isEmpty then item
    else
      { item with
        hasSymbol := true
        symbolValue := some v
        tokenPosition := some before.length
        tokenLength := some r.text.length }

end Pattern

/-- An item with its marks replaced, the letters that were asked for, and what that did. -/
structure Expansion where
  item : Item
  cursor : Cursor
  letters : Text := []
  references : List Reference := []

namespace Pattern

/-- Replaces marks until `fuel` of them are done; each search starts at the left again. -/
def expandFrom (expand : Expander) : Nat → Item → Cursor → Expansion
  | 0, item, c => { item := item, cursor := c }
  | fuel + 1, item, c =>
    match splitMark item.text with
    | none => { item := item, cursor := c }
    | some (before, letter, after) =>
      let (r, c) := expand letter c
      let rest := expandFrom expand fuel (fill item before after r) c
      { rest with
        letters := letter :: rest.letters
        references := r.reference.toList ++ rest.references }

def maxMarks : Nat := 4

def expand (e : Expander) (item : Item) (c : Cursor) : Expansion := expandFrom e maxMarks item c

example : parse "djnz ^r|13/8" 4 = .ok ⟨"djnz ^r", 13, 8⟩ := rfl

example : parse "inc b" 4 = .ok ⟨"inc b", 4, 0⟩ := rfl

end Pattern

end RomListing

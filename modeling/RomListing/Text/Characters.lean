import RomListing.Text.Basic

/-!
# Classes of characters

Blanks are the white space of Unicode, with the four separators U+001C to U+001F. Other classes are
told by the runs of code points that they are made of.
-/

namespace RomListing.Text

def blankCodes : List Nat :=
  [0x09, 0x0A, 0x0B, 0x0C, 0x0D, 0x1C, 0x1D, 0x1E, 0x1F, 0x20, 0x85, 0xA0, 0x1680,
    0x2000, 0x2001, 0x2002, 0x2003, 0x2004, 0x2005, 0x2006, 0x2007, 0x2008, 0x2009, 0x200A,
    0x2028, 0x2029, 0x202F, 0x205F, 0x3000]

def isBlank (c : Char) : Bool := blankCodes.contains c.toNat

/-- Whether the character is white space around a number. -/
def isMargin (c : Char) : Bool := isBlank c && !(0x1C ≤ c.toNat && c.toNat ≤ 0x1F)

def dropEnd (p : α → Bool) (as : List α) : List α := (as.reverse.dropWhile p).reverse

def trim (p : α → Bool) (as : List α) : List α := dropEnd p (as.dropWhile p)

theorem isBlank_of_isWhitespace (c : Char) (h : c.isWhitespace = true) : isBlank c = true := by
  simp only [Char.isWhitespace, Bool.or_eq_true, decide_eq_true_eq] at h
  rcases h with ((rfl | rfl) | rfl) | rfl <;> decide

/-! ## Runs of code points -/

/-- Looks for a run that holds `n` among the positions from `low` up to `high`. -/
def inRun (runs : Array (Nat × Nat)) (n : Nat) : Nat → Nat → Nat → Bool
  | 0, _, _ => false
  | fuel + 1, low, high =>
    if low < high then
      let middle := (low + high) / 2
      match runs[middle]? with
      | none => false
      | some (first, last) =>
        if n < first then inRun runs n fuel low middle
        else if last < n then inRun runs n fuel (middle + 1) high
        else true
    else false

/-- Whether one of the runs holds `n`. Every step leaves out a run at least. -/
def isInRuns (runs : Array (Nat × Nat)) (n : Nat) : Bool := inRun runs n runs.size 0 runs.size

example : isInRuns #[(1, 3), (7, 9), (12, 12)] 8 = true := by decide

example : isInRuns #[(1, 3), (7, 9), (12, 12)] 10 = false := by decide

/-!
## Decimal digits of all scripts

Unicode keeps the ten decimal digits of a script in one run, in order, so a run is known
by its zero.
-/

/-- The zero of every run of decimal digits, in ascending order. -/
def digitZeros : List Nat :=
  [
    0x0030, 0x0660, 0x06F0, 0x07C0, 0x0966, 0x09E6, 0x0A66, 0x0AE6,
    0x0B66, 0x0BE6, 0x0C66, 0x0CE6, 0x0D66, 0x0DE6, 0x0E50, 0x0ED0,
    0x0F20, 0x1040, 0x1090, 0x17E0, 0x1810, 0x1946, 0x19D0, 0x1A80,
    0x1A90, 0x1B50, 0x1BB0, 0x1C40, 0x1C50, 0xA620, 0xA8D0, 0xA900,
    0xA9D0, 0xA9F0, 0xAA50, 0xABF0, 0xFF10, 0x104A0, 0x10D30, 0x11066,
    0x110F0, 0x11136, 0x111D0, 0x112F0, 0x11450, 0x114D0, 0x11650, 0x116C0,
    0x11730, 0x118E0, 0x11950, 0x11C50, 0x11D50, 0x11DA0, 0x16A60, 0x16AC0,
    0x16B50, 0x1D7CE, 0x1D7D8, 0x1D7E2, 0x1D7EC, 0x1D7F6, 0x1E140, 0x1E2F0,
    0x1E950, 0x1FBF0
  ]

def digitValue? (c : Char) : Option Nat :=
  if '0' ≤ c ∧ c ≤ '9' then some (c.toNat - 48)
  else if c.toNat < 0x80 then none
  else (digitZeros.find? fun z => z ≤ c.toNat ∧ c.toNat < z + 10).map (c.toNat - ·)

example : digitValue? '0' = some 0 := by decide

example : digitValue? '٣' = some 3 := by decide

/-!
## Control sequences of terminals

A sequence starts with the escape character and `[` and ends with the first letter behind
digits and separators. Text that goes to no terminal is written without them.
-/

def isLetter (c : Char) : Bool := ('a' ≤ c && c ≤ 'z') || ('A' ≤ c && c ≤ 'Z')

def isControlArgument (c : Char) : Bool := ('0' ≤ c && c ≤ '9') || c == ';' || c == '?'

/-- The length of the control sequence that a text starts with, 0 if there is none. -/
def controlLength : Text → Nat
  | .char '\x1b' :: .char '[' :: rest =>
    let arguments := rest.takeWhile (·.is isControlArgument)
    match rest.drop arguments.length with
    | l :: _ => if l.is isLetter then arguments.length + 3 else 0
    | [] => 0
  | _ => 0

/-- Leaves out control sequences, `skip` letters of one being left to skip. -/
def dropControls : Nat → Text → Text
  | _, [] => []
  | skip + 1, _ :: rest => dropControls skip rest
  | 0, l :: rest =>
    match controlLength (l :: rest) with
    | 0 => l :: dropControls 0 rest
    | n + 1 => dropControls n rest

def plain (t : Text) : Text := dropControls 0 t

example : plain "\x1b[1;31mred\x1b[m" = "red" := by decide +kernel

example : plain "\x1b[1" = "\x1b[1" := by decide +kernel

end RomListing.Text

import RomListing.Numeral
import RomListing.Text.Characters
import RomListing.Text.Quoted

/-!
# Integer literals

An optional sign and digits, with single underscores between digits allowed. White space
around the literal does not count. A literal whose base is a power of two may start with the
mark of its base, `0b`, `0o` or `0x`, which one underscore may follow. Decimal digits of
every script are digits. Literals of other bases are read up to a length only.
-/

namespace RomListing.Text.Integer

def digit? (base : Nat) (c : Char) : Option Nat :=
  let value := match digitValue? c with
    | some d => some d
    | none =>
      if 'a' ≤ c ∧ c ≤ 'f' then some (c.toNat - 87)
      else if 'A' ≤ c ∧ c ≤ 'F' then some (c.toNat - 55)
      else none
  value.filter (· < base)

/-- Goes on after a digit with the value `acc` read so far. -/
def moreDigits (base : Nat) : Nat → List Char → Option Nat
  | acc, [] => some acc
  | acc, '_' :: c :: rest => (digit? base c).bind fun d => moreDigits base (acc * base + d) rest
  | acc, c :: rest => (digit? base c).bind fun d => moreDigits base (acc * base + d) rest

def digits (base : Nat) : List Char → Option Nat
  | [] => none
  | c :: rest => (digit? base c).bind fun d => moreDigits base d rest

def leadLetters (base : Nat) : List Char :=
  if base = 2 then ['b', 'B']
  else if base = 8 then ['o', 'O']
  else if base = 16 then ['x', 'X']
  else []

/-- What follows the mark of the base, and one underscore after it. -/
def dropLead (base : Nat) : List Char → List Char
  | z :: x :: rest =>
    if digitValue? z = some 0 ∧ (leadLetters base).contains x then
      match rest with
      | '_' :: r => r
      | r => r
    else z :: x :: rest
  | cs => cs

def unsigned (base : Nat) (cs : List Char) : Option Nat := digits base (dropLead base cs)

def dropSign (cs : List Char) : Bool × List Char :=
  match trim isMargin cs with
  | '-' :: rest => (true, rest)
  | '+' :: rest => (false, rest)
  | rest => (false, rest)

def value? (base : Nat) (cs : List Char) : Option Int :=
  let (negative, rest) := dropSign cs
  (unsigned base rest).map fun n => if negative then -(n : Int) else n

/-- How many digits a number may have where it goes from or into decimal. -/
def maxDigits : Nat := 4300

def isUnbounded (base : Nat) : Bool := base = 2 || base = 8 || base = 16

def isDigit (base : Nat) (c : Char) : Bool := (digit? base c).isSome

/-- How many digits a literal starts with. The underscores among them must stand well. -/
def leadingDigits (base : Nat) (cs : List Char) : Nat :=
  let run := cs.takeWhile fun c => isDigit base c || c = '_'
  if (digits base run).isSome then run.countP (isDigit base) else 0

inductive Fault where
  | notLiteral (base : Nat) (text : Text)
  /-- A literal has too many digits. -/
  | longLiteral (count : Nat)
  /-- A number has too many digits. -/
  | longNumber
  deriving DecidableEq

def limitText : String :=
  "Exceeds the limit (" ++ toString maxDigits ++ " digits) for integer string conversion"

def limitAdvice : String := "; use sys.set_int_max_str_digits() to increase the limit"

def Fault.message : Fault → String
  | .notLiteral base text =>
    "invalid literal for int() with base " ++ toString base ++ ": "
      ++ String.ofList ((quoted text).toList.take 200)
  | .longLiteral count => limitText ++ ": value has " ++ toString count ++ " digits" ++ limitAdvice
  | .longNumber => limitText ++ limitAdvice

/-- Reads a literal. Its length is looked at first, whatever follows the digits. -/
def read (base : Nat) (t : Text) : Except Fault Int :=
  let count := leadingDigits base (dropSign t.chars).2
  if !isUnbounded base && maxDigits < count then .error (.longLiteral count)
  else
    match value? base t.chars with
    | some n => .ok n
    | none => .error (.notLiteral base t)

def text (n : Int) : Except Fault String :=
  if Nat.pow 10 maxDigits ≤ n.natAbs then .error .longNumber else .ok (Numeral.decimal n)

example : value? 10 " -1_0 ".toList = some (-10) := by decide

example : value? 16 "+0x_fF".toList = some 255 := by decide

example : value? 8 "0o17".toList = some 15 := by decide

example : value? 16 "0x".toList = none := by decide

end RomListing.Text.Integer

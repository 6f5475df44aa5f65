import RomListing.BinaryFraction
import RomListing.Text.Characters

/-!
# Nearest doubles

The double nearest to a quotient or to a decimal, the even one of two that are equally
near, and the reading of decimal literals. Everything is exact up to the one rounding.
-/

namespace RomListing.Decimal

/-- The greatest `e` with `2 ^ e ≤ num / den`, both numbers being positive. -/
def floorLog2 (num den : Nat) : Int :=
  let e : Int := (num.log2 : Int) - den.log2
  if den * Nat.pow 2 e.toNat ≤ num * Nat.pow 2 (-e).toNat then e else e - 1

def infinityBits : Nat := 2047 * Nat.pow 2 52

def nanBits : Nat := infinityBits + Nat.pow 2 51

/-- The bits of the double nearest to `num / den`. The exponent of the last place is that
of the double, so that a mantissa rounded up to the next power of two carries over. -/
def nearestBits (num den : Nat) : Nat :=
  if num = 0 then 0
  else
    let q := max (floorLog2 num den - 52) (-1074)
    let n := BinaryFraction.roundHalfEven (num * Nat.pow 2 (-q).toNat) (den * Nat.pow 2 q.toNat)
    min infinityBits ((q + 1074).toNat * Nat.pow 2 52 + n)

/-- The bits of the double nearest to `digits * 10 ^ point`. What is far out of range is
settled without the power. -/
def decimalBits (digits : Nat) (point : Int) : Nat :=
  if digits = 0 then 0
  else if 310 < point then infinityBits
  else if point + digits.log2 / 3 + 1 < -330 then 0
  else nearestBits (digits * Nat.pow 10 point.toNat) (Nat.pow 10 (-point).toNat)

/-! ## Literals -/

def digitRun (cs : List Char) : List Nat × List Char :=
  let run := cs.takeWhile fun c => (Text.digitValue? c).isSome
  (run.filterMap Text.digitValue?, cs.drop run.length)

def numberOf (digits : List Nat) : Nat := digits.foldl (fun n d => 10 * n + d) 0

def exponent? : List Char → Option Int
  | [] => some 0
  | e :: cs =>
    let (negative, cs) := match cs with
      | '-' :: rest => (true, rest)
      | '+' :: rest => (false, rest)
      | rest => (false, rest)
    match digitRun cs with
    | (d :: ds, []) =>
      let n : Int := numberOf (d :: ds)
      if e = 'e' ∨ e = 'E' then some (if negative then -n else n) else none
    | _ => none

/-- The bits of a literal without a sign: digits with a point among them or at either end,
an exponent, or a word for what is no finite number. -/
def unsignedBits? (cs : List Char) : Option Nat :=
  let word := String.ofList (cs.map Char.toLower)
  if word = "inf" ∨ word = "infinity" then some infinityBits
  else if word = "nan" then some nanBits
  else
    let (whole, rest) := digitRun cs
    let (part, rest) := match rest with
      | '.' :: rest => digitRun rest
      | rest => ([], rest)
    if whole.isEmpty && part.isEmpty then none
    else
      (exponent? rest).map fun e => decimalBits (numberOf (whole ++ part)) (e - part.length)

/-- The bits of a literal. White space around it does not count. -/
def bits? (cs : List Char) : Option UInt64 :=
  match Text.trim Text.isMargin cs with
  | '-' :: rest => (unsignedBits? rest).map fun n => (Nat.pow 2 63 + n).toUInt64
  | '+' :: rest => (unsignedBits? rest).map Nat.toUInt64
  | rest => (unsignedBits? rest).map Nat.toUInt64

example : bits? "0.1".toList = some 0x3FB999999999999A := by decide +kernel

example : bits? "9007199254740993".toList = some 0x4340000000000000 := by decide +kernel

example : bits? "-5e-324".toList = some 0x8000000000000001 := by decide +kernel

example : bits? "1e999999999999".toList = some 0x7FF0000000000000 := by decide +kernel

end RomListing.Decimal

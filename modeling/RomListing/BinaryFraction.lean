/-!
# Binary fractions

Numbers `mantissa * 2 ^ exponent` with a sign, their double-precision patterns and their
decimal texts with a fixed number of places.
-/

namespace RomListing

structure BinaryFraction where
  negative : Bool
  mantissa : Nat
  exponent : Int
  deriving DecidableEq

namespace BinaryFraction

def roundHalfEven (num den : Nat) : Nat :=
  let q := num / den
  let twice := 2 * (num % den)
  if twice < den then q
  else if den < twice then q + 1
  else if q % 2 = 0 then q else q + 1

theorem roundHalfEven_one (n : Nat) : roundHalfEven n 1 = n := by
  simp [roundHalfEven, Nat.mod_one]

/-- The 64 bits of the double of this value. The mantissa must have at most 53 digits and
the value must lie in the normal range; then it is exact. -/
def doubleBits (x : BinaryFraction) : Nat :=
  let sign := if x.negative then Nat.pow 2 63 else 0
  if x.mantissa = 0 then sign
  else
    let top := x.mantissa.log2
    let biased := (x.exponent + top + 1023).toNat
    sign + biased * Nat.pow 2 52 + (x.mantissa * Nat.pow 2 (52 - top) - Nat.pow 2 52)

/-- The number of units of the last of `places` decimal places. -/
def units (x : BinaryFraction) (places : Nat) : Nat :=
  let scaled := x.mantissa * Nat.pow 10 places
  match x.exponent with
  | .ofNat e => scaled * Nat.pow 2 e
  | .negSucc e => roundHalfEven scaled (Nat.pow 2 (e + 1))

def fixedText (x : BinaryFraction) (places : Nat) : String :=
  let n := x.units places
  let whole := Nat.toDigits 10 (n / Nat.pow 10 places)
  let part := (Nat.toDigits 10 (n % Nat.pow 10 places)).leftpad places '0'
  String.ofList ((if x.negative then ['-'] else []) ++ whole ++ '.' :: part)

example : doubleBits ⟨false, 1, 0⟩ = 0x3FF0000000000000 := by decide

example : fixedText ⟨true, 1, -1⟩ 6 = "-0.500000" := by decide

example : fixedText ⟨false, 1, -7⟩ 6 = "0.007812" := by decide

end BinaryFraction

end RomListing

import RomListing.BinaryFraction

/-!
# Shortest decimals

The decimal with the fewest digits that reads back as a given double, and of those the
nearest one. A double stands for the interval of reals that round to it; the ends belong
to it when its mantissa is even.
-/

namespace RomListing

def BinaryFraction.ofDouble (bits : UInt64) : BinaryFraction :=
  let n : Nat := bits.toNat
  let biased : Nat := n / Nat.pow 2 52 % Nat.pow 2 11
  let part : Nat := n % Nat.pow 2 52
  if biased = 0 then ⟨Nat.pow 2 63 ≤ n, part, -1074⟩
  else ⟨Nat.pow 2 63 ≤ n, part + Nat.pow 2 52, (biased : Int) - 1075⟩

namespace Decimal

/-- The number `0.d₁d₂… * 10 ^ point`, its digits `d₁d₂…` the numeral of `digits`. -/
structure Scientific where
  digits : Nat
  point : Int
  deriving DecidableEq

/-- Three numbers over one denominator: a value and the ends of its interval. -/
structure Span where
  low : Nat
  value : Nat
  high : Nat
  den : Nat
  closed : Bool

def span (m : Nat) (q : Int) : Span :=
  let below := if m = Nat.pow 2 52 ∧ -1074 < q then 1 else 2
  let scale := Nat.pow 2 (q - 2).toNat
  { low := (4 * m - below) * scale
    value := 4 * m * scale
    high := (4 * m + 2) * scale
    den := Nat.pow 2 (2 - q).toNat
    closed := m % 2 = 0 }

/-- How many places the first digit of `num / den` is behind the point. -/
def leadingPlaces (num den : Nat) : Nat → Nat → Nat
  | 0, j => j
  | fuel + 1, j => if den ≤ num * Nat.pow 10 j then j else leadingPlaces num den fuel (j + 1)

def leadingExponent (s : Span) : Int :=
  if s.den ≤ s.value then ((Nat.toDigits 10 (s.value / s.den)).length : Int) - 1
  else -(leadingPlaces s.value s.den 400 1 : Nat)

def Span.contains (s : Span) (n : Nat) : Bool :=
  if s.closed then s.low ≤ n * s.den && n * s.den ≤ s.high
  else s.low < n * s.den && n * s.den < s.high

def Span.inUnits (s : Span) (e : Int) : Span :=
  let up := Nat.pow 10 (-e).toNat
  { s with low := s.low * up, value := s.value * up, high := s.high * up
           den := s.den * Nat.pow 10 e.toNat }

/-- The nearest point of the grid in the interval, the even one of two. -/
def nearest (s : Span) : Option Nat :=
  let f := s.value / s.den
  let c := f + 1
  let nearer := BinaryFraction.roundHalfEven s.value s.den
  let other := if nearer = f then c else f
  if s.contains nearer then some nearer
  else if s.contains other then some other else none

/-- The first hit on a grid of `count` digits or of more, `fuel` grids being tried. -/
def search (s : Span) (leading : Int) : Nat → Nat → Scientific
  | 0, _ => ⟨0, 0⟩
  | fuel + 1, count =>
    let e := leading - count + 1
    match nearest (s.inUnits e) with
    | some n => ⟨n, e⟩
    | none => search s leading fuel (count + 1)

def strip : Nat → Nat → Int → Nat × Int
  | 0, n, e => (n, e)
  | fuel + 1, n, e => if n % 10 = 0 ∧ n ≠ 0 then strip fuel (n / 10) (e + 1) else (n, e)

/-- The shortest decimal of the double with mantissa `m` (not 0) and exponent `q`. -/
def shortest (m : Nat) (q : Int) : Scientific :=
  let s := span m q
  let found := search s (leadingExponent s) 18 1
  let (n, e) := strip 20 found.digits found.point
  ⟨n, e + (Nat.toDigits 10 n).length⟩

example : shortest 0x1999999999999A (-56) = ⟨1, 0⟩ := by decide +kernel

end Decimal

end RomListing

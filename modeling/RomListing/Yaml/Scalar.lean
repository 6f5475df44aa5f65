import RomListing.Decimal.Nearest
import RomListing.Text.Base64
import RomListing.Text.Case
import RomListing.Yaml.Kind
import RomListing.Yaml.Value

/-!
# Values of YAML scalars

The value that the text of a scalar has under a kind, and when two values are one key of a
mapping.
-/

namespace RomListing.Yaml

inductive BadScalar where
  | literal (f : Text.Integer.Fault)
  | number (text : Text)
  /-- A number without any character. -/
  | empty
  /-- A truth value by no known word. -/
  | unknownWord
  /-- A time that does not look like one. -/
  | noStamp
  /-- A time whose text stands in a mapping. -/
  | stampOfMapping
  /-- More parts to the base 60 than a double can weigh. -/
  | weightOverflow
  /-- A text that is looked for within itself. -/
  | cycle
  | year (n : Nat)
  | month
  | day
  | hour
  | minute
  | second
  | zone (minutes : Int)
  deriving DecidableEq

def BadScalar.message : BadScalar → String
  | .literal f => f.message
  | .number text => "could not convert string to float: " ++ Text.quoted text
  | .empty => "a number without digits"
  | .unknownWord => "unknown truth value"
  | .noStamp => "not a date"
  | .stampOfMapping => "a date in a mapping"
  | .weightOverflow => "int too large to convert to float"
  | .cycle => "a text within itself"
  | .year n => "year " ++ toString n ++ " is out of range"
  | .month => "month must be in 1..12"
  | .day => "day is out of range for month"
  | .hour => "hour must be in 0..23"
  | .minute => "minute must be in 0..59"
  | .second => "second must be in 0..59"
  | .zone minutes =>
    "offset must be a timedelta strictly between -timedelta(hours=24) and "
      ++ "timedelta(hours=24), not " ++ Value.durationRepr minutes ++ "."

namespace Scalar

/-! ## Numbers -/

def integer (base : Nat) (t : Text) : Except BadScalar Int :=
  (Text.Integer.read base t).mapError .literal

def sign : Text → Bool × Text
  | .char '-' :: rest => (true, rest)
  | .char '+' :: rest => (false, rest)
  | t => (false, t)

/-- The text of a number without its fillers, which must not be empty. -/
def digitsOf (text : Text) : Except BadScalar Text :=
  match text.filter (· != .char '_') with
  | [] => .error .empty
  | t => .ok t

def intValue (text : Text) : Except BadScalar Value := do
  let (negative, t) := sign (← digitsOf text)
  let n ← match t with
    | [] => .error .empty
    | [.char '0'] => pure 0
    | .char '0' :: .char 'b' :: rest => integer 2 rest
    | .char '0' :: .char 'x' :: rest => integer 16 rest
    | .char '0' :: rest => integer 8 ('0' :: rest)
    | t => do
      let parts ← (Text.split (.char ':') t).mapM (integer 10)
      pure (parts.foldl (fun n part => 60 * n + part) 0)
  return .int (if negative then -n else n)

def decimal (t : Text) : Except BadScalar Float :=
  match Decimal.bits? t.chars with
  | some bits => .ok (Float.ofBits bits)
  | none => .error (.number t)

/-- The sum of parts to the base 60, the last part first, whose weights start at `60 ^ place`.
Every weight is rounded by itself. -/
def sixtiesSum (sum : Float) (place : Nat) : List Float → Except BadScalar Float
  | [] => .ok sum
  | part :: parts =>
    let weight := Decimal.nearestBits (Nat.pow 60 place) 1
    if weight = Decimal.infinityBits then .error .weightOverflow
    else sixtiesSum (sum + part * Float.ofBits weight.toUInt64) (place + 1) parts

/-- The bits of a number. A word for no number has `mark` in them. -/
def floatBits (text : Text) (mark : Nat) : Except BadScalar UInt64 := do
  let (negative, t) := sign (Text.lower (← digitsOf text))
  if t = ".nan" then return Decimal.nanBits.toUInt64
  let x ←
    if t = ".inf" then pure (Float.ofBits Decimal.infinityBits.toUInt64)
    else
      match Text.split (.char ':') t with
      | [_] => decimal t
      | parts => do sixtiesSum 0.0 0 (← parts.mapM decimal).reverse
  let x := if negative then -x else x
  return if x.isNaN then (Decimal.nanBits + mark).toUInt64 else x.toBits

/-! ## Words and bytes -/

def boolValue (text : Text) : Except BadScalar Value :=
  match (Text.lower text).lookupIn Kind.truthWords with
  | some b => .ok (.bool b)
  | none => .error .unknownWord

def bytesValue? (text : Text) : Option Value :=
  let cs := text.chars
  if cs.all fun c => c.toNat < 0x80 then (Text.Base64.decode? cs).map .bytes else none

/-! ## Dates -/

def isLeap (year : Nat) : Bool := year % 4 == 0 && (year % 100 != 0 || year % 400 == 0)

def daysIn (year month : Nat) : Nat :=
  if month == 2 then (if isLeap year then 29 else 28)
  else if [4, 6, 9, 11].contains month then 30
  else 31

def date (s : Kind.Stamp) : Except BadScalar Date :=
  if s.year < 1 then .error (.year s.year)
  else if s.month < 1 ∨ 12 < s.month then .error .month
  else if s.day < 1 ∨ daysIn s.year s.month < s.day then .error .day
  else .ok ⟨s.year, s.month, s.day⟩

/-- The first six digits of a fraction, filled up with zeros. -/
def microseconds (fraction : List Char) : Nat :=
  ((fraction.take 6).rightpad 6 '0').foldl (fun n d => 10 * n + (d.toNat - 48)) 0

def stampValue (text : Text) : Except BadScalar Value := do
  match Kind.stamp? (Kind.dropBreak text.chars) with
  | none => .error .noStamp
  | some s =>
    match s.time with
    | none => return .date (← date s)
    | some (hour, minute, second, fraction, zone) =>
      let z := zone.getD 0
      if z ≤ -1440 ∨ 1440 ≤ z then .error (.zone z)
      let d ← date s
      if 23 < hour then .error .hour
      if 59 < minute then .error .minute
      if 59 < second then .error .second
      return .timestamp d ⟨hour, minute, second, microseconds fraction, zone⟩

/-! ## Keys -/

def equalsInt (bits : UInt64) (n : Int) : Bool :=
  let x := BinaryFraction.ofDouble bits
  let finite := bits.toNat / Nat.pow 2 52 % Nat.pow 2 11 != 2047
  let magnitude := x.mantissa * Nat.pow 2 x.exponent.toNat
  finite && magnitude == n.natAbs * Nat.pow 2 (-x.exponent).toNat
    && (n == 0 || x.negative == decide (n < 0))

def number? : Value → Option Int
  | .int n => some n
  | .bool b => some (if b then 1 else 0)
  | _ => none

/-- The days before a day. -/
def dayNumber (d : Date) : Nat :=
  let years := d.year - 1
  let months := (List.range (d.month - 1)).map fun m => daysIn d.year (m + 1)
  365 * years + years / 4 - years / 100 + years / 400 + months.foldl (· + ·) 0 + d.day

/-- The microseconds before a time, in universal time if its zone is known. -/
def moment (d : Date) (t : Time) : Int :=
  let minutes : Int := ((dayNumber d * 24 + t.hour) * 60 + t.minute : Nat) - t.zone.getD 0
  (minutes * 60 + t.second) * 1000000 + t.microsecond

/-- Whether two times are one moment. A time with a zone is none without. -/
def sameMoment (d : Date) (t : Time) (e : Date) (u : Time) : Bool :=
  t.zone.isSome == u.zone.isSome && moment d t == moment e u

/-- Whether two values are the same key. Numbers are, and truth values with them, if they
are equal. -/
def sameKey (a b : Value) : Bool :=
  match a, b with
  | .null, .null => true
  | .text s, .text t => s == t
  | .date d, .date e => d == e
  | .bytes a, .bytes b => a == b
  | .timestamp d t, .timestamp e u => sameMoment d t e u
  | .float x, .float y =>
    x == y || (x.toNat % Nat.pow 2 63 == 0 && y.toNat % Nat.pow 2 63 == 0)
  | .float x, v => (number? v).any (equalsInt x)
  | v, .float x => (number? v).any (equalsInt x)
  | v, w => match number? v, number? w with
    | some m, some n => m == n
    | _, _ => false

end Scalar

end RomListing.Yaml

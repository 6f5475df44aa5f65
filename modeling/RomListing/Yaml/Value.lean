import RomListing.Decimal.Shortest
import RomListing.Numeral
import RomListing.Text.Integer

/-!
# Values of documents

The values that a document can hold, and the texts that messages show for them.
-/

namespace RomListing.Yaml

structure Date where
  year : Nat
  month : Nat
  day : Nat
  deriving DecidableEq

structure Time where
  hour : Nat
  minute : Nat
  second : Nat
  microsecond : Nat
  /-- The distance from universal time in minutes, if given. -/
  zone : Option Int
  deriving DecidableEq

inductive Value where
  | null
  | bool (b : Bool)
  | int (n : Int)
  /-- A double by its bits. Numbers that are none differ by their bits. -/
  | float (bits : UInt64)
  | text (t : Text)
  | bytes (bs : List UInt8)
  | date (d : Date)
  | timestamp (d : Date) (t : Time)
  /-- A container, by its place in the table of the data. -/
  | container (id : Nat)
  deriving DecidableEq, Inhabited

inductive Container where
  | list (items : List Value)
  | pair (first second : Value)
  | mapping (entries : List (Value × Value))
  | set (members : List Value)

/-- A value with the containers that it is made of. A container may hold itself. -/
structure Data where
  containers : Array Container := #[]
  root : Value := .null

namespace Value

/-- Where digits go over into exponents, and how those are written. -/
def scientificText (x : Decimal.Scientific) : List Char :=
  let digits := Nat.toDigits 10 x.digits
  let count : Int := digits.length
  if -4 < x.point ∧ x.point ≤ 16 then
    if x.point ≤ 0 then "0.".toList ++ List.replicate (-x.point).toNat '0' ++ digits
    else if count ≤ x.point then
      digits ++ List.replicate (x.point - count).toNat '0' ++ ".0".toList
    else digits.take x.point.toNat ++ '.' :: digits.drop x.point.toNat
  else
    let e := x.point - 1
    let head := match digits with
      | [d] => [d]
      | d :: ds => d :: '.' :: ds
      | [] => []
    head ++ 'e' :: (if e < 0 then '-' else '+') ::
      (Nat.toDigits 10 e.natAbs).leftpad 2 '0'

/-- The shortest text that reads back as the double. -/
def floatText (bits : UInt64) : String :=
  let x := BinaryFraction.ofDouble bits
  let sign := if x.negative then ['-'] else []
  if bits.toNat / Nat.pow 2 52 % Nat.pow 2 11 = 2047 then
    if bits.toNat % Nat.pow 2 52 ≠ 0 then "nan" else String.ofList (sign ++ "inf".toList)
  else if x.mantissa = 0 then String.ofList (sign ++ "0.0".toList)
  else String.ofList (sign ++ scientificText (Decimal.shortest x.mantissa x.exponent))

def two (n : Nat) : String := Numeral.padded Numeral.decimalDigits 2 n

def dateText (d : Date) : String :=
  Numeral.padded Numeral.decimalDigits 4 d.year ++ "-" ++ two d.month ++ "-" ++ two d.day

def zoneText : Option Int → String
  | none => ""
  | some z =>
    (if z < 0 then "-" else "+") ++ two (z.natAbs / 60) ++ ":" ++ two (z.natAbs % 60)

def timeText (t : Time) : String :=
  two t.hour ++ ":" ++ two t.minute ++ ":" ++ two t.second
    ++ (if t.microsecond = 0 then ""
      else "." ++ Numeral.padded Numeral.decimalDigits 6 t.microsecond)
    ++ zoneText t.zone

def call (name : String) (arguments : List String) : String :=
  name ++ "(" ++ ", ".intercalate arguments ++ ")"

def durationRepr (minutes : Int) : String :=
  let seconds := minutes * 60
  let days := seconds / 86400
  let rest := seconds % 86400
  call "datetime.timedelta"
    ((if days = 0 then [] else ["days=" ++ Numeral.decimal days])
      ++ (if rest = 0 then [] else ["seconds=" ++ Numeral.decimal rest]))

def zoneRepr : Option Int → List String
  | none => []
  | some z =>
    ["tzinfo=" ++ if z = 0 then "datetime.timezone.utc"
      else call "datetime.timezone" [durationRepr z]]

def timestampRepr (d : Date) (t : Time) : String :=
  let seconds := if t.second = 0 ∧ t.microsecond = 0 then [] else [t.second]
  let micros := if t.microsecond = 0 then [] else [t.microsecond]
  call "datetime.datetime"
    (([d.year, d.month, d.day, t.hour, t.minute] ++ seconds ++ micros).map
      (fun (n : Nat) => Numeral.decimal n) ++ zoneRepr t.zone)

def isContainer : Value → Bool
  | .container _ => true
  | _ => false

/-- The value under a name, the last one if the name is there twice. -/
def lookup (name : String) : List (Value × Value) → Option Value
  | [] => none
  | (k, v) :: rest =>
    match lookup name rest with
    | some v => some v
    | none => if k = .text name then some v else none

/-- The text of a value without parts inside of another value, or where it must be told from
others. -/
def repr : Value → Except Text.Integer.Fault String
  | .null => .ok "None"
  | .bool true => .ok "True"
  | .bool false => .ok "False"
  | .int n => Text.Integer.text n
  | .float bits => .ok (floatText bits)
  | .text t => .ok (Text.quoted t)
  | .bytes bs => .ok (Text.quotedBytes bs)
  | .date d =>
    .ok (call "datetime.date"
      [Numeral.decimal d.year, Numeral.decimal d.month, Numeral.decimal d.day])
  | .timestamp d t => .ok (timestampRepr d t)
  | .container _ => .ok ""

example : floatText 0x3FB999999999999A = "0.1" := by decide +kernel

example : floatText 0x4341C37937E08000 = "1e+16" := by decide +kernel

example : floatText 0x8000000000000000 = "-0.0" := by decide +kernel

end Value

namespace Container

def ellipsis : Container → String
  | .list _ => "[...]"
  | .pair _ _ => "(...)"
  | .mapping _ => "\x7b...\x7d"
  | .set _ => "set(...)"

def isEmpty : Container → Bool
  | .list items => items.isEmpty
  | .pair _ _ => false
  | .mapping entries => entries.isEmpty
  | .set members => members.isEmpty

def repr (part : Value → Except Text.Integer.Fault String) :
    Container → Except Text.Integer.Fault String
  | .list items => do
    return "[" ++ ", ".intercalate (← items.mapM part) ++ "]"
  | .pair first second => do
    return "(" ++ (← part first) ++ ", " ++ (← part second) ++ ")"
  | .mapping entries => do
    let texts ← entries.mapM fun (k, v) => do
      return (← part k) ++ ": " ++ (← part v)
    return "\x7b" ++ ", ".intercalate texts ++ "\x7d"
  | .set [] => .ok "set()"
  | .set members => do
    return "\x7b" ++ ", ".intercalate (← members.mapM part) ++ "\x7d"

end Container

namespace Data

def container? (d : Data) : Value → Option Container
  | .container id => d.containers[id]?
  | _ => none

def reprWithin (d : Data) : Nat → List Nat → Value → Except Text.Integer.Fault String
  | 0, _, v => v.repr
  | fuel + 1, around, v =>
    match v with
    | .container id =>
      match d.containers[id]? with
      | none => v.repr
      | some c =>
        if around.contains id then .ok c.ellipsis
        else c.repr (reprWithin d fuel (id :: around))
    | v => v.repr

/-- The text of a value inside of another one, or where it must be told from others. No
container is opened within itself, so their number bounds the depth. -/
def repr (d : Data) (v : Value) : Except Text.Integer.Fault String :=
  d.reprWithin (d.containers.size + 1) [] v

def display (d : Data) : Value → Except Text.Integer.Fault Text
  | .text t => .ok t
  | .date day => .ok (Value.dateText day)
  | .timestamp day time => .ok (Value.dateText day ++ " " ++ Value.timeText time)
  | v => (d.repr v).map Text.ofString

/-- Whether the value counts as given: nothing, false, zero and what is empty do not. -/
def isGiven (d : Data) : Value → Bool
  | .null => false
  | .bool b => b
  | .int n => n != 0
  | .float bits => bits.toNat % Nat.pow 2 63 != 0
  | .text t => !t.isEmpty
  | .bytes bs => !bs.isEmpty
  | .date _ => true
  | .timestamp _ _ => true
  | .container id => (d.containers[id]?).any (!·.isEmpty)

def entries? (d : Data) (v : Value) : Option (List (Value × Value)) :=
  match d.container? v with
  | some (.mapping entries) => some entries
  | _ => none

/-- The members of a container, the keys of a mapping, the letters of a text or the
numbers of bytes. -/
def members? (d : Data) (v : Value) : Option (List Value) :=
  match v with
  | .text t => some (t.map fun l => .text [l])
  | .bytes bs => some (bs.map fun b => .int b.toNat)
  | v =>
    match d.container? v with
    | none => none
    | some (.list items) => some items
    | some (.pair first second) => some [first, second]
    | some (.mapping entries) => some (entries.map Prod.fst)
    | some (.set members) => some members

def put (d : Data) (c : Container) : Value × Data :=
  (.container d.containers.size, { d with containers := d.containers.push c })

end Data

end RomListing.Yaml

import RomListing.Text.Integer

/-!
# Kinds of plain scalars

What a scalar without quotes and without a tag stands for, by its text alone: `yes` is a
truth value, `010` and `1_000` are numbers, `1:30` is a number to the base 60, and a date
is a date.
-/

namespace RomListing.Yaml

inductive Kind where
  | null
  | bool
  | int
  | float
  | bytes
  | timestamp
  | text
  /-- The key that puts other mappings in. -/
  | merge
  /-- The key of the text of a mapping. -/
  | default
  | sequence
  /-- A sequence of mappings with one entry each. -/
  | pairs
  | mapping
  /-- A mapping of which only the keys count. -/
  | set
  | unknown
  deriving DecidableEq

namespace Kind

def isDigit (c : Char) : Bool := '0' ≤ c && c ≤ '9'

def isFiller (c : Char) : Bool := isDigit c || c == '_'

def truthWords : List (String × Bool) :=
  [("yes", true), ("Yes", true), ("YES", true), ("no", false), ("No", false), ("NO", false),
    ("true", true), ("True", true), ("TRUE", true), ("false", false), ("False", false),
    ("FALSE", false), ("on", true), ("On", true), ("ON", true), ("off", false),
    ("Off", false), ("OFF", false)]

def nullWords : List String := ["~", "null", "Null", "NULL", ""]

def dropSign : List Char → List Char
  | '-' :: rest => rest
  | '+' :: rest => rest
  | cs => cs

/-- What is left behind `:` and a number below 60, once for every such group. -/
def sixties : Nat → List Char → Option (List Char)
  | 0, _ => none
  | fuel + 1, cs =>
    let more (rest : List Char) : Option (List Char) :=
      match rest with
      | ':' :: _ => sixties fuel rest
      | _ => some rest
    match cs with
    | ':' :: a :: b :: rest =>
      if isDigit a && isDigit b then (if a ≤ '5' then more rest else none)
      else if isDigit a then more (b :: rest)
      else none
    | [':', a] => if isDigit a then some [] else none
    | _ => none

/-- Digits with fillers among them, the first character a digit that `p` allows. -/
def afterDigits (p : Char → Bool) : List Char → Option (List Char)
  | c :: rest => if p c then some (rest.dropWhile isFiller) else none
  | [] => none

def isExponent : List Char → Bool
  | [] => true
  | e :: sign :: d :: rest =>
    (e == 'e' || e == 'E') && (sign == '-' || sign == '+') && (d :: rest).all isDigit
  | _ => false

def isFloat (cs : List Char) : Bool :=
  let body := dropSign cs
  let infinite := [".inf", ".Inf", ".INF"].contains (String.ofList body)
  let undefined := [".nan", ".NaN", ".NAN"].contains (String.ofList cs)
  let fraction :=
    match afterDigits isDigit body with
    | some ('.' :: rest) => isExponent (rest.dropWhile isFiller)
    | some rest =>
      match sixties (rest.length + 1) rest with
      | some ('.' :: rest) => rest.all isFiller
      | _ => false
    | none => false
  let pointFirst :=
    match cs with
    | '.' :: rest =>
      match afterDigits isDigit rest with
      | some rest => isExponent rest
      | none => false
    | _ => false
  infinite || undefined || fraction || pointFirst

def isHexFiller (c : Char) : Bool := (Text.Integer.digit? 16 c).isSome && c.toNat < 0x80 || c == '_'

def isInt (cs : List Char) : Bool :=
  match dropSign cs with
  | ['0'] => true
  | '0' :: 'b' :: d :: rest => (d :: rest).all fun c => c == '0' || c == '1' || c == '_'
  | '0' :: 'x' :: d :: rest => (d :: rest).all isHexFiller
  | '0' :: rest => rest.all fun c => ('0' ≤ c && c ≤ '7') || c == '_'
  | body =>
    match afterDigits (fun c => '1' ≤ c && c ≤ '9') body with
    | some [] => true
    | some rest => sixties (rest.length + 1) rest == some []
    | none => false

def number (least most : Nat) (cs : List Char) : Option (Nat × List Char) :=
  let ds := (cs.take most).takeWhile isDigit
  if ds.length < least then none
  else some (ds.foldl (fun n d => 10 * n + (d.toNat - 48)) 0, cs.drop ds.length)

def expect (c : Char) : List Char → Option (List Char)
  | [] => none
  | d :: rest => if c = d then some rest else none

structure Stamp where
  year : Nat
  month : Nat
  day : Nat
  /-- Hour, minute, second, the digits of the fraction, and the zone in minutes. -/
  time : Option (Nat × Nat × Nat × List Char × Option Int) := none

def zone (cs : List Char) : Option (Option Int) :=
  match cs.dropWhile fun c => c == ' ' || c == '\t' with
  | [] => if cs.isEmpty then some none else none
  | ['Z'] => some (some 0)
  | sign :: rest =>
    if sign == '+' || sign == '-' then do
      let (hours, rest) ← number 1 2 rest
      let minutes ←
        if rest.isEmpty then some 0
        else do
          let (minutes, rest) ← number 2 2 (← expect ':' rest)
          if rest.isEmpty then some minutes else none
      let distance : Int := hours * 60 + minutes
      return some (if sign == '-' then -distance else distance)
    else none

def clock (cs : List Char) : Option (Nat × Nat × Nat × List Char × Option Int) := do
  let (hour, rest) ← number 1 2 cs
  let (minute, rest) ← number 2 2 (← expect ':' rest)
  let (second, rest) ← number 2 2 (← expect ':' rest)
  let (fraction, rest) := match rest with
    | '.' :: rest => (rest.takeWhile isDigit, rest.dropWhile isDigit)
    | rest => ([], rest)
  return (hour, minute, second, fraction, ← zone rest)

def stamp? (cs : List Char) : Option Stamp := do
  let (year, rest) ← number 4 4 cs
  let (month, rest) ← number 1 2 (← expect '-' rest)
  let (day, rest) ← number 1 2 (← expect '-' rest)
  if rest.isEmpty then return ⟨year, month, day, none⟩
  else
    let rest ← match rest with
      | 'T' :: rest => some rest
      | 't' :: rest => some rest
      | c :: _ =>
        if c == ' ' || c == '\t' then some (rest.dropWhile fun c => c == ' ' || c == '\t')
        else none
      | [] => none
    return ⟨year, month, day, some (← clock rest)⟩

/-- Whether a text by itself is a date or a time. The month and the day of a date that
stands alone have two digits. -/
def isStamp (cs : List Char) : Bool :=
  (stamp? cs).any fun s => s.time.isSome || cs.length = 10

/-- A text without the line break at its end, which says nothing about its kind. -/
def dropBreak (cs : List Char) : List Char :=
  if cs.getLast? = some '\n' then cs.dropLast else cs

def ofPlain (text : Text) : Kind :=
  let cs := dropBreak text.chars
  let word := String.ofList cs
  if text = "\n" then .text
  else if (truthWords.lookup word).isSome then .bool
  else if isFloat cs then .float
  else if isInt cs then .int
  else if word == "<<" then .merge
  else if nullWords.contains word then .null
  else if isStamp cs then .timestamp
  else if word == "=" then .default
  else if ["!", "&", "*"].contains word then .unknown
  else .text

end Kind

end RomListing.Yaml

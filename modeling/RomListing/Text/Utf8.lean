/-!
# UTF-8 texts

Decoding of bytes, whole or in pieces, with the place and the reason where it fails, and
decoding that puts a character in where the bytes stand for none.
-/

namespace RomListing.Text

inductive Utf8Fault where
  /-- No character starts with the byte. -/
  | start (position : Nat) (byte : UInt8)
  /-- `count` bytes start a character that the next byte does not go on with. -/
  | continuation (position count : Nat) (byte : UInt8)
  /-- The bytes end within a character. -/
  | truncated (position count : Nat) (byte : UInt8)
  deriving DecidableEq

namespace Utf8Fault

def place (position count : Nat) (byte : UInt8) : String :=
  if count = 1 then
    "byte 0x" ++ String.ofList ((Nat.toDigits 16 byte.toNat).leftpad 2 '0')
      ++ " in position " ++ toString position
  else "bytes in position " ++ toString position ++ "-" ++ toString (position + count - 1)

def message : Utf8Fault → String
  | .start position byte =>
    "'utf-8' codec can't decode " ++ place position 1 byte ++ ": invalid start byte"
  | .continuation position count byte =>
    "'utf-8' codec can't decode " ++ place position count byte ++ ": invalid continuation byte"
  | .truncated position count byte =>
    "'utf-8' codec can't decode " ++ place position count byte ++ ": unexpected end of data"

end Utf8Fault

/-- The length of a character by its first byte, 0 if there is none. -/
def utf8Length (b : UInt8) : Nat :=
  if b < 0x80 then 1
  else if b < 0xC2 then 0
  else if b < 0xE0 then 2
  else if b < 0xF0 then 3
  else if b < 0xF5 then 4
  else 0

/-- Whether a byte can be the second one behind `first`. -/
def isSecond (first b : UInt8) : Bool :=
  if first = 0xE0 then 0xA0 ≤ b && b < 0xC0
  else if first = 0xED then 0x80 ≤ b && b < 0xA0
  else if first = 0xF0 then 0x90 ≤ b && b < 0xC0
  else if first = 0xF4 then 0x80 ≤ b && b < 0x90
  else 0x80 ≤ b && b < 0xC0

/-- How many of the bytes go on with a character, `wanted` at most. -/
def goesOn (first : UInt8) (bytes : List UInt8) (wanted : Nat) : Nat :=
  match bytes with
  | [] => 0
  | b :: rest =>
    if wanted = 0 || !isSecond first b then 0
    else 1 + ((rest.take (wanted - 1)).takeWhile fun c => 0x80 ≤ c && c < 0xC0).length

inductive Utf8Front where
  | char (c : Char) (length : Nat)
  /-- A byte that starts no character. -/
  | stray
  /-- `count` bytes of a character that does not go on. -/
  | broken (count : Nat)
  /-- `count` bytes of a character, and nothing more. -/
  | cut (count : Nat)

/-- How many bytes belong to what stands in front, or stand for nothing together. -/
def Utf8Front.length : Utf8Front → Nat
  | .char _ length => length
  | .stray => 1
  | .broken count => count
  | .cut count => count

def utf8Front (b : UInt8) (rest : List UInt8) : Utf8Front :=
  let length := utf8Length b
  let found := goesOn b rest (length - 1)
  if length = 0 then .stray
  else if found + 1 < length then
    if found = rest.length then .cut (found + 1) else .broken (found + 1)
  else
    let lead := if length = 1 then b.toNat else b.toNat % Nat.pow 2 (7 - length)
    let code := (rest.take (length - 1)).foldl (fun n c => 64 * n + c.toNat % 64) lead
    .char (Char.ofNat code) length

/-- Whether bytes are the start of a half of a surrogate pair, and nothing more. -/
def isHalfStart (first : UInt8) (rest : List UInt8) : Bool :=
  match rest with
  | [b] => first = 0xED && 0xA0 ≤ b && b < 0xC0
  | _ => false

/-- Reads a piece from a position on. What may go on in another piece is left over. -/
def decodePiece (last : Bool) :
    Nat → Nat → List UInt8 → Except Utf8Fault (List Char × List UInt8)
  | 0, _, _ => .ok ([], [])
  | _, _, [] => .ok ([], [])
  | fuel + 1, position, b :: rest =>
    match utf8Front b rest with
    | .stray => .error (.start position b)
    | .cut count =>
      if last then .error (.truncated position count b) else .ok ([], b :: rest)
    | .broken count =>
      if !last && isHalfStart b rest then .ok ([], b :: rest)
      else .error (.continuation position count b)
    | .char c length => do
      let (cs, left) ← decodePiece last fuel (position + length) (rest.drop (length - 1))
      return (c :: cs, left)

def decodeUtf8 (bytes : List UInt8) : Except Utf8Fault (List Char) :=
  (decodePiece true bytes.length 0 bytes).map Prod.fst

def mendFrom : Nat → List UInt8 → List Char
  | 0, _ => []
  | _, [] => []
  | fuel + 1, b :: rest =>
    let front := utf8Front b rest
    let c := match front with
      | .char c _ => c
      | _ => '\uFFFD'
    c :: mendFrom fuel (rest.drop (front.length - 1))

/-- The characters of bytes, with the one that stands for what is none where they are no
UTF-8. -/
def mendUtf8 (bytes : List UInt8) : List Char := mendFrom bytes.length bytes

def encodeUtf8 (c : Char) : List UInt8 := (String.singleton c).toUTF8.toList

example : decodeUtf8 [0x61, 0xC3, 0xA9] = .ok ['a', 'é'] := by rfl

example : decodeUtf8 [0x61, 0xC3] = .error (.truncated 1 1 0xC3) := by rfl

example : mendUtf8 [0xC3, 0xA9, 0xC3] = ['é', '\uFFFD'] := by decide

end RomListing.Text

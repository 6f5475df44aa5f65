import RomListing.Text.Basic
import RomListing.Text.Printable

/-!
# Quoted text

Text between apostrophes, or between quotes when it has an apostrophe and no quote.
Characters that do not show as themselves are written with their code. Bytes are quoted
alike, with a mark before them.
-/

namespace RomListing.Text

/-- `n` in lower-case hexadecimal, filled with zeros. -/
def hexCode (width n : Nat) : List Char := (Nat.toDigits 16 n).leftpad width '0'

def codeText (l : Letter) : List Char :=
  match l with
  | .half _ => '\\' :: 'u' :: hexCode 4 l.code
  | .char c =>
    if c.toNat ≤ 0xFF then '\\' :: 'x' :: hexCode 2 c.toNat
    else if c.toNat ≤ 0xFFFF then '\\' :: 'u' :: hexCode 4 c.toNat
    else '\\' :: 'U' :: hexCode 8 c.toNat

def quoteLetter (quote : Char) (l : Letter) : List Char :=
  match l with
  | .half _ => codeText l
  | .char c =>
    if c = quote ∨ c = '\\' then ['\\', c]
    else if c = '\t' then ['\\', 't']
    else if c = '\n' then ['\\', 'n']
    else if c = '\r' then ['\\', 'r']
    else if isPrintable c then [c]
    else codeText l

def quoteFor (t : Text) : Char :=
  if t.contains (.char '\'') && !t.contains (.char '"') then '"' else '\''

def quoted (t : Text) : String :=
  let quote := quoteFor t
  String.ofList (quote :: t.flatMap (quoteLetter quote) ++ [quote])

def quoteByte (quote : Char) (b : UInt8) : List Char :=
  if b < 0x7F then quoteLetter quote (Char.ofNat b.toNat) else '\\' :: 'x' :: hexCode 2 b.toNat

def quotedBytes (bytes : List UInt8) : String :=
  let quote := quoteFor (ofChars (bytes.map fun b => Char.ofNat b.toNat))
  String.ofList ('b' :: quote :: bytes.flatMap (quoteByte quote) ++ [quote])

example : quoted "a\nb" = "'a\\nb'" := by decide

example : quoted "it's" = "\"it's\"" := by decide

example : quoted [.half 0x7FF] = "'\\udfff'" := by decide

example : quotedBytes [0x61, 0xFF] = "b'a\\xff'" := by decide

end RomListing.Text

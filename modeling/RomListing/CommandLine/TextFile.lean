import RomListing.Text.Basic
import RomListing.Text.Utf8

/-!
# Text files

The text of a file. The file is decoded in pieces, and what may be the start of a character
at the end of a piece is put before the next one. The place of a fault counts from where the
bytes that are decoded together start, so it depends on how long the pieces are. Every line
end becomes a line feed.
-/

namespace RomListing.CommandLine.TextFile

def unifyLineEnds : List Char → List Char
  | '\r' :: '\n' :: rest => '\n' :: unifyLineEnds rest
  | '\r' :: rest => '\n' :: unifyLineEnds rest
  | c :: rest => c :: unifyLineEnds rest
  | [] => []

structure Progress where
  /-- How many characters have come so far, a line end counted once. -/
  count : Nat := 0
  /-- The bytes of the last piece. -/
  pieceBytes : Nat := 0
  /-- The characters that came with the last piece. -/
  pieceCount : Nat := 0
  /-- The last piece ends with a carriage return, which comes with the next one. -/
  held : Bool := false
  /-- The bytes that go with the next piece. -/
  left : List UInt8 := []

namespace Progress

/-- How many characters are asked for at once. -/
def request : Nat := 4096

def leastPiece : Nat := 8192

/-- How long the next piece is. It should give what is missing of a request, if it has as many
bytes for a character as the last piece. -/
def nextLength (p : Progress) : Nat :=
  let missing := request - p.count % request
  let rate := if p.pieceCount = 0 then 0.0 else p.pieceBytes.toFloat / p.pieceCount.toFloat
  max leastPiece (rate * missing.toFloat).toUInt64.toNat

def advance (p : Progress) (bytes : Nat) (cs : List Char) (left : List UInt8) : Progress :=
  let waiting := if p.held then '\r' :: cs else cs
  let held := if cs.isEmpty then p.held else waiting.getLast? == some '\r'
  let count :=
    if cs.isEmpty then 0 else (unifyLineEnds (if held then waiting.dropLast else waiting)).length
  { count := p.count + count
    pieceBytes := bytes
    pieceCount := count
    held := held
    left := left }

end Progress

def readFrom : Nat → Progress → List UInt8 → Except Text.Utf8Fault (List Char)
  | 0, _, _ => .ok []
  | fuel + 1, p, bytes => do
    let piece := bytes.take p.nextLength
    let together := p.left ++ piece
    let (cs, left) ← Text.decodePiece piece.isEmpty together.length 0 together
    if piece.isEmpty then return cs
    return cs ++ (← readFrom fuel (p.advance piece.length cs left) (bytes.drop p.nextLength))

def read (bytes : List UInt8) : Except Text.Utf8Fault Text := do
  let cs ← readFrom (bytes.length / Progress.leastPiece + 2) {} bytes
  return Text.ofChars (unifyLineEnds cs)

end RomListing.CommandLine.TextFile

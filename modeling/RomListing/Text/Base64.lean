/-!
# Bytes in base 64

Four characters of six bits each stand for three bytes. Other characters do not count. The
sign `=` ends the text where it fills up a group of four; elsewhere it does not count either.
-/

namespace RomListing.Text.Base64

def bits? (c : Char) : Option Nat :=
  if 'A' ≤ c ∧ c ≤ 'Z' then some (c.toNat - 65)
  else if 'a' ≤ c ∧ c ≤ 'z' then some (c.toNat - 71)
  else if '0' ≤ c ∧ c ≤ '9' then some (c.toNat + 4)
  else if c = '+' then some 62
  else if c = '/' then some 63
  else none

/-- The byte that a character completes, and the bits that are left over, when it is at
the given place of its group. The first one completes none. -/
def complete (place left bits : Nat) : List UInt8 × Nat :=
  match place with
  | 0 => ([], bits)
  | 1 => ([(left * 4 + bits / 16).toUInt8], bits % 16)
  | 2 => ([(left * 16 + bits / 4).toUInt8], bits % 4)
  | _ => ([(left * 64 + bits).toUInt8], 0)

/-- Goes on at a place of a group, with bits left over and signs `=` just before. -/
def decodeFrom (place left signs : Nat) : List Char → Option (List UInt8)
  | [] => if place = 0 then some [] else none
  | c :: rest =>
    if c = '=' then
      if place < 2 then decodeFrom place left signs rest
      else if 4 ≤ place + signs + 1 then some []
      else decodeFrom place left (signs + 1) rest
    else
      match bits? c with
      | none => decodeFrom place left signs rest
      | some bits =>
        let (bytes, left) := complete place left bits
        (decodeFrom ((place + 1) % 4) left 0 rest).map (bytes ++ ·)

/-- The bytes of a text, none if it ends within a group. -/
def decode? (cs : List Char) : Option (List UInt8) := decodeFrom 0 0 0 cs

example : decode? "aG k=".toList = some [0x68, 0x69] := by decide +kernel

example : decode? "aGk".toList = none := by decide +kernel

end RomListing.Text.Base64

import RomListing.BinaryFraction

/-!
# Numbers of the Spectrum ROM

A number takes five bytes: an exponent and a mantissa whose first bit is the sign. With
exponent 0 the bytes hold a small whole number. Literals of the calculator leave out
trailing zeros and most of the exponent.
-/

namespace RomListing.Spectrum

structure FiveBytes where
  exponent : UInt8
  m1 : UInt8
  m2 : UInt8
  m3 : UInt8
  m4 : UInt8
  deriving DecidableEq

inductive NumberError where
  | length (n : Nat)
  /-- A compact literal stops before its exponent. -/
  | truncated
  deriving DecidableEq

def NumberError.message : NumberError → String
  | .length n => "A float number must be exactly 5 bytes: " ++ toString n
  | .truncated => "list index out of range"

namespace FiveBytes

def value (n : FiveBytes) : BinaryFraction :=
  if n.exponent = 0 then
    let magnitude := n.m2.toNat + 0x100 * n.m3.toNat
    ⟨n.m1 == 0xFF && magnitude != 0, magnitude, 0⟩
  else
    ⟨0x80 ≤ n.m1,
      (n.m1.toNat % 0x80 + 0x80) * Nat.pow 2 24 + n.m2.toNat * Nat.pow 2 16 + n.m3.toNat * Nat.pow 2 8
        + n.m4.toNat,
      n.exponent.toNat - 160⟩

def ofList : List UInt8 → Except NumberError FiveBytes
  | [e, m1, m2, m3, m4] => .ok ⟨e, m1, m2, m3, m4⟩
  | bytes => .error (.length bytes.length)

/-- The number of a compact literal. The low six bits of the first byte are the exponent;
when they are 0 the second byte is. -/
def ofCompact : List UInt8 → Except NumberError FiveBytes
  | [] => .error .truncated
  | first :: rest =>
    if first &&& 0x3F ≠ 0 then .ok (widen (first &&& 0x3F) rest)
    else
      match rest with
      | [] => .error .truncated
      | exponent :: rest => .ok (widen exponent rest)
where
  widen (exponent : UInt8) (mantissa : List UInt8) : FiveBytes :=
    ⟨exponent + 0x50, mantissa.getD 0 0, mantissa.getD 1 0, mantissa.getD 2 0,
      mantissa.getD 3 0⟩

end FiveBytes

end RomListing.Spectrum

/-!
# Numerals of operands and addresses

Upper-case hexadecimal and decimal, filled with zeros to a width. A minus sign takes one
of the places, so `hex4 (-1)` is `-001`.
-/

namespace RomListing.Numeral

def hexDigits (n : Nat) : List Char := (Nat.toDigits 16 n).map Char.toUpper

def decimalDigits (n : Nat) : List Char := Nat.toDigits 10 n

def padded (digits : Nat → List Char) (width : Nat) : Int → String
  | .ofNat n => String.ofList ((digits n).leftpad width '0')
  | .negSucc n => String.ofList ('-' :: (digits (n + 1)).leftpad (width - 1) '0')

def hex2 : Int → String := padded hexDigits 2

def hex4 : Int → String := padded hexDigits 4

def decimal : Int → String := padded decimalDigits 0

def decimal3 : Int → String := padded decimalDigits 3

def decimal5 : Int → String := padded decimalDigits 5

example : hex4 (-1) = "-001" := by decide

example : decimal3 7 = "007" := by decide

end RomListing.Numeral

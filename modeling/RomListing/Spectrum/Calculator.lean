import RomListing.Extension
import RomListing.Spectrum.Number

/-!
# The calculator of the Spectrum ROM

The bytes after a call of the calculator are its operations, one byte each. Jumps have a
distance after them; `stk-data` and the series have numbers in compact form after them.
-/

namespace RomListing.Spectrum.Calculator

/-- The names of the operations. The last four have several names, by their low bits. -/
def operations : List (Nat × String) :=
  [
    (0x00, "jump-true"), (0x01, "exchange"), (0x02, "delete"), (0x03, "subtract"),
    (0x04, "multiply"), (0x05, "division"), (0x06, "to-power"), (0x07, "or"), (0x08, "no-&-no"),
    (0x09, "no-l-eql"), (0x0A, "no-gr-eq"), (0x0B, "nos-neql"), (0x0C, "no-grtr"),
    (0x0D, "no-less"), (0x0E, "nos-eql"), (0x0F, "addition"), (0x10, "str-&-no"),
    (0x11, "str-l-eql"), (0x12, "str-gr-eq"), (0x13, "strs-neql"), (0x14, "str-grtr"),
    (0x15, "str-less"), (0x16, "strs-eql"), (0x17, "strs-add"), (0x18, "val$"), (0x19, "usr-$"),
    (0x1A, "read-in"), (0x1B, "negate"), (0x1C, "code"), (0x1D, "val"), (0x1E, "len"),
    (0x1F, "sin"), (0x20, "cos"), (0x21, "tan"), (0x22, "asn"), (0x23, "acs"), (0x24, "atn"),
    (0x25, "ln"), (0x26, "exp"), (0x27, "int"), (0x28, "sqr"), (0x29, "sgn"), (0x2A, "abs"),
    (0x2B, "peek"), (0x2C, "in"), (0x2D, "usr-no"), (0x2E, "str$"), (0x2F, "chr$"),
    (0x30, "not"), (0x31, "duplicate"), (0x32, "n-mod-m"), (0x33, "jump"), (0x34, "stk-data"),
    (0x35, "dec-jr-nz"), (0x36, "less-0"), (0x37, "greater-0"), (0x38, "end-calc"),
    (0x39, "get-argt"), (0x3A, "truncate"), (0x3B, "fp-calc-2"), (0x3C, "e-to-fp"),
    (0x3D, "re-stack"), (0x3E, "series-06|series-08|series-0C"),
    (0x3F, "stk-zero|stk-one|stk-half|stk-pi-half|stk-ten"),
    (0x40, "st-mem-0|st-mem-1|st-mem-2|st-mem-3|st-mem-4|st-mem-5"),
    (0x41, "get-mem-0|get-mem-1|get-mem-2|get-mem-3|get-mem-4|get-mem-5")
  ]

def indexedOperation (code index : Int) : String :=
  let names := if code < 0 then none else operations.lookup code.toNat
  let name := if index < 0 then none
    else (names.map fun text => Text.split '|' text.toList).bind (·[index.toNat]?)
  match name with
  | some (c :: cs) => "(" ++ String.ofList (c :: cs) ++ ")"
  | _ =>
    "(calc code: " ++ Numeral.decimal code ++ "/" ++ Numeral.decimal index ++ ")"

/-- What one entry of the byte code is, and what it leads to. -/
structure Entry where
  item : Item
  /-- More entries follow. -/
  goesOn : Bool
  /-- How many numbers come before the next operation. -/
  pending : Nat
  references : List Reference := []
  cursor : Cursor

/-- How many bytes of a compact number follow its first one. -/
def literalRest (first : UInt8) : Nat :=
  (first / 0x40).toNat + 1 + if first &&& 0x3F = 0 then 1 else 0

def isJump (code : UInt8) : Bool := code == 0x00 || code == 0x33 || code == 0x35

def isSeries (code : UInt8) : Bool := code == 0x86 || code == 0x88 || code == 0x8C

def byteList (s : Setting) (bytes : List UInt8) : String :=
  ".defb " ++ ", ".intercalate (bytes.map fun b => s.options.byteText b.toNat)

/-- Reads a number; `pending` counts it and those after it. -/
def literal (s : Setting) (pending : Nat) (c : Cursor) : Entry :=
  let (first, after) := c.fetch s
  let (rest, after) := after.fetchMany s (literalRest first)
  let bytes := first :: rest
  { item :=
      { address := s.shownAddress c.offset
        opcodes := bytes
        text := byteList s bytes
        remark := (FiveBytes.ofCompact bytes).toOption.map fun n =>
          "(" ++ n.value.fixedText 6 ++ ")" }
    goesOn := true
    pending := pending - 1
    cursor := after }

def operationName (code : UInt8) : Option String := operations.lookup code.toNat

/-- Reads a jump. Its distance counts from the byte that holds it. -/
def jump (s : Setting) (code : UInt8) (c after : Cursor) : Entry :=
  let (distance, after) := after.fetch s
  let address := s.shownAddress c.offset
  let target := s.shownAddress (after.offset - 1 + signedByte distance.toNat)
  let name := (operationName code).getD ""
  { item :=
      { address := address
        opcodes := [code, distance]
        text := byteList s [code, distance]
        remark := some ("(" ++ name ++ ": L" ++ Numeral.hex4 target ++ ")") }
    goesOn := code != 0x33
    pending := 0
    references := [⟨target, address⟩]
    cursor := after }

def operationRemark (s : Setting) (code : UInt8) : String :=
  let n := code.toNat
  if code = 0x34 then "(stk-data)"
  else if code = 0x38 then "(end-calc)"
  else if isSeries code then
    "(series-0" ++ String.ofList (Numeral.hexDigits (n - 0x80)) ++ ")"
  else if 0xA0 ≤ n ∧ n ≤ 0xA4 then indexedOperation 0x3F (n - 0xA0 : Nat)
  else if 0xC0 ≤ n ∧ n ≤ 0xC5 then indexedOperation 0x40 (n - 0xC0 : Nat)
  else if 0xE0 ≤ n ∧ n ≤ 0xE5 then indexedOperation 0x41 (n - 0xE0 : Nat)
  else "(" ++ (operationName code).getD ("calc code: " ++ s.options.byteText n) ++ ")"

def numbersAfter (code : UInt8) : Nat :=
  if code = 0x34 then 1 else if isSeries code then code.toNat - 0x80 else 0

/-- Reads the entry at the cursor, `pending` numbers of which are still due. -/
def entry (s : Setting) (pending : Nat) (c : Cursor) : Entry :=
  if pending ≠ 0 then literal s pending c
  else
    let (code, after) := c.fetch s
    if isJump code then jump s code c after
    else
      { item :=
          { address := s.shownAddress c.offset
            opcodes := [code]
            text := byteList s [code]
            remark := some (operationRemark s code) }
        goesOn := code != 0x38
        pending := numbersAfter code
        cursor := after }

end RomListing.Spectrum.Calculator

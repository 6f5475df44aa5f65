import RomListing.Text.Basic
import RomListing.Yaml.Fault

/-!
# Reading positions in a YAML text

A position knows what is left of the text, and its line and column. Past the end it shows
the character NUL, which a YAML text cannot hold.
-/

namespace RomListing.Yaml

def isBreak (c : Char) : Bool :=
  c == '\r' || c == '\n' || c == '\u0085' || c == '\u2028' || c == '\u2029'

def isEnd (c : Char) : Bool := c == '\x00'

def isBreakOrEnd (c : Char) : Bool := isBreak c || isEnd c

def isSpaceOrEnd (c : Char) : Bool := c == ' ' || isBreakOrEnd c

def isGap (c : Char) : Bool := c == '\t' || isSpaceOrEnd c

def isAllowed (c : Char) : Bool :=
  let n := c.toNat
  n == 0x09 || n == 0x0A || n == 0x0D || (0x20 ≤ n && n ≤ 0x7E) || n == 0x85
    || (0xA0 ≤ n && n ≤ 0xD7FF) || (0xE000 ≤ n && n ≤ 0xFFFD)
    || 0x10000 ≤ n

structure Source where
  rest : List Char
  index : Nat := 0
  line : Nat := 0
  column : Nat := 0

namespace Source

def peek (s : Source) : Char := s.rest.headD '\x00'

def peekAt (s : Source) (n : Nat) : Char := s.rest.getD n '\x00'

/-- Moves over one character. The two characters of a `\r\n` are one line end. -/
def advance (s : Source) : Source :=
  match s.rest with
  | [] => s
  | c :: rest =>
    let s := { s with rest := rest, index := s.index + 1 }
    if isBreak c && !(c == '\r' && rest.head? == some '\n') then
      { s with line := s.line + 1, column := 0 }
    else if c == '\uFEFF' then s
    else { s with column := s.column + 1 }

def forward : Nat → Source → Source
  | 0, s => s
  | n + 1, s => forward n s.advance

def span (p : Char → Bool) (s : Source) : List Char × Source :=
  let taken := s.rest.takeWhile p
  (taken, s.forward taken.length)

def skip (p : Char → Bool) (s : Source) : Source := (s.span p).2

/-- Moves over a line break, if one is here, and gives what it stands for. -/
def lineBreak (s : Source) : List Char × Source :=
  match s.rest with
  | '\r' :: '\n' :: _ => (['\n'], s.forward 2)
  | c :: _ =>
    if c == '\u2028' || c == '\u2029' then ([c], s.advance)
    else if isBreak c then (['\n'], s.advance)
    else ([], s)
  | [] => ([], s)

/-- Whether `---` or `...` stands here as a word. -/
def atSeparator (s : Source) : Bool :=
  match s.rest with
  | a :: b :: c :: rest =>
    (a == '-' || a == '.') && a == b && b == c && isGap (rest.headD '\x00')
  | _ => false

end Source

end RomListing.Yaml

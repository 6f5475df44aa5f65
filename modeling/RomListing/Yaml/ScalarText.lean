import RomListing.Yaml.Source

/-!
# Texts of scalars

Quoted, plain and block scalars. Line breaks inside of the first two fold: a single one
becomes a blank, further ones stay.
-/

namespace RomListing.Yaml

namespace ScalarText

/-- The folded text of a line break and the breaks after it. -/
def foldBreaks (first : List Char) (more : List Char) : List Char :=
  if first != ['\n'] then first ++ more
  else if more.isEmpty then [' ']
  else more

/-! ## Quoted scalars -/

def quotedBreaks : Nat → Source → Except Fault (List Char × Source)
  | 0, s => .ok ([], s)
  | fuel + 1, s =>
    if s.atSeparator then .error .separatorInQuote
    else
      let s := s.skip fun c => c == ' ' || c == '\t'
      if isBreak s.peek then do
        let (b, s) := s.lineBreak
        let (more, s) ← quotedBreaks fuel s
        return (b ++ more, s)
      else .ok ([], s)

def quotedSpaces (fuel : Nat) (s : Source) : Except Fault (List Char × Source) := do
  let (blanks, s) := s.span fun c => c == ' ' || c == '\t'
  if isEnd s.peek then .error .unterminatedQuote
  else if isBreak s.peek then
    let (first, s) := s.lineBreak
    let (more, s) ← quotedBreaks fuel s
    return (foldBreaks first more, s)
  else return (blanks, s)

def escapes : List (Char × Char) :=
  [('0', '\x00'), ('a', '\x07'), ('b', '\x08'), ('t', '\t'), ('\t', '\t'), ('n', '\n'),
    ('v', '\x0b'), ('f', '\x0c'), ('r', '\r'), ('e', '\x1b'), (' ', ' '), ('"', '"'),
    ('\\', '\\'), ('/', '/'), ('N', '\u0085'), ('_', '\u00a0'), ('L', '\u2028'),
    ('P', '\u2029')]

def hexValue (c : Char) : Option Nat :=
  if '0' ≤ c ∧ c ≤ '9' then some (c.toNat - 48)
  else if 'a' ≤ c ∧ c ≤ 'f' then some (c.toNat - 87)
  else if 'A' ≤ c ∧ c ≤ 'F' then some (c.toNat - 55)
  else none

def hexCode? (width : Nat) (cs : List Char) : Option Nat :=
  let digits := (cs.take width).map hexValue
  if digits.length = width ∧ digits.all Option.isSome then
    some (digits.foldl (fun n d => 16 * n + d.getD 0) 0)
  else none

def hexEscape (width : Nat) (s : Source) : Except Fault (Text × Source) :=
  match hexCode? width s.rest with
  | none => .error .badEscape
  | some code =>
    if 0x110000 ≤ code then .error (.codeRange code)
    else .ok ([Letter.ofCode code], s.forward width)

def escape (fuel : Nat) (s : Source) : Except Fault (Text × Source) :=
  let c := s.peek
  match escapes.lookup c with
  | some r => .ok ([.char r], s.advance)
  | none =>
    if c == 'x' then hexEscape 2 s.advance
    else if c == 'u' then hexEscape 4 s.advance
    else if c == 'U' then hexEscape 8 s.advance
    else if isBreak c then do
      let (breaks, s) ← quotedBreaks fuel s.lineBreak.2
      return (Text.ofChars breaks, s)
    else .error .badEscape

def quotedRest (double : Bool) : Nat → Source → Except Fault (Text × Source)
  | 0, _ => .error .unterminatedQuote
  | fuel + 1, s =>
    let c := s.peek
    let next (piece : Text) (s : Source) : Except Fault (Text × Source) := do
      let (more, s) ← quotedRest double fuel s
      return (piece ++ more, s)
    if double && c == '"' then .ok ([], s.advance)
    else if !double && c == '\'' then
      if s.peekAt 1 == '\'' then next ['\''] (s.forward 2) else .ok ([], s.advance)
    else if double && c == '\\' then do
      let (piece, s) ← escape fuel s.advance
      next piece s
    else if isGap c then do
      let (spaces, s) ← quotedSpaces fuel s
      next (Text.ofChars spaces) s
    else next [c] s.advance

def quoted (double : Bool) (s : Source) : Except Fault (Text × Source) :=
  quotedRest double (s.rest.length + 1) s.advance

/-! ## Plain scalars -/

def plainRun (flow : Bool) : List Char → List Char
  | [] => []
  | c :: rest =>
    let next := rest.headD '\x00'
    let stops := isGap c
      || (c == ':' && (isGap next || (flow && [',', '[', ']', '\x7b', '\x7d'].contains next)))
      || (flow && [',', '?', '[', ']', '\x7b', '\x7d'].contains c)
    if stops then [] else c :: plainRun flow rest

/-- The empty lines behind a line of a plain scalar; none if a document ends there. -/
def plainBreaks : Nat → Source → Option (List Char) × Source
  | 0, s => (some [], s)
  | fuel + 1, s =>
    if s.peek == ' ' then plainBreaks fuel s.advance
    else if isBreak s.peek then
      let (b, s) := s.lineBreak
      if s.atSeparator then (none, s)
      else
        let (more, s) := plainBreaks fuel s
        (more.map (b ++ ·), s)
    else (some [], s)

structure Between where
  text : List Char
  newLine : Bool
  source : Source

def plainSpaces (s : Source) : Between :=
  let (blanks, s) := s.span (· == ' ')
  if isBreak s.peek then
    let (first, s) := s.lineBreak
    if s.atSeparator then ⟨[], true, s⟩
    else
      match plainBreaks (s.rest.length + 1) s with
      | (none, s) => ⟨[], true, s⟩
      | (some more, s) => ⟨foldBreaks first more, true, s⟩
  else ⟨blanks, false, s⟩

structure Plain where
  text : List Char
  newLine : Bool
  source : Source

/-- Goes on with a plain scalar, `lead` standing before the next run. -/
def plainRest (flow : Bool) (indent : Int) : Nat → List Char → Bool → Source → Plain
  | 0, _, newLine, s => ⟨[], newLine, s⟩
  | fuel + 1, lead, newLine, s =>
    let run := if s.peek == '#' then [] else plainRun flow s.rest
    if run.isEmpty then ⟨[], newLine, s⟩
    else
      let gap := plainSpaces (s.forward run.length)
      if gap.text.isEmpty || gap.source.peek == '#'
          || (!flow && (gap.source.column : Int) < indent) then
        ⟨lead ++ run, gap.newLine, gap.source⟩
      else
        let more := plainRest flow indent fuel gap.text gap.newLine gap.source
        { more with text := lead ++ run ++ more.text }

def plain (flow : Bool) (indent : Int) (s : Source) : Plain :=
  plainRest flow indent (s.rest.length + 1) [] false s

/-! ## Block scalars -/

inductive Chomping where
  | clip
  | strip
  | keep
  deriving DecidableEq

def chomping? (c : Char) : Option Chomping :=
  if c == '+' then some .keep else if c == '-' then some .strip else none

/-- The indentation that a header gives; 0 is none. -/
def increment? (c : Char) : Except Fault (Option Nat) :=
  if c == '0' then .error .badBlockHeader
  else if '1' ≤ c ∧ c ≤ '9' then .ok (some (c.toNat - 48))
  else .ok none

structure Header where
  chomping : Chomping
  increment : Option Nat
  source : Source

def header (s : Source) : Except Fault Header := do
  let done (k : Chomping) (n : Option Nat) (s : Source) : Except Fault Header :=
    if isSpaceOrEnd s.peek then .ok ⟨k, n, s⟩ else .error .badBlockHeader
  match chomping? s.peek with
  | some k =>
    let s := s.advance
    match ← increment? s.peek with
    | some n => done k (some n) s.advance
    | none => done k none s
  | none =>
    match ← increment? s.peek with
    | some n =>
      let s := s.advance
      match chomping? s.peek with
      | some k => done k (some n) s.advance
      | none => done .clip (some n) s
    | none => done .clip none s

/-- The rest of the header's line, which may only hold a comment. -/
def headerEnd (s : Source) : Except Fault Source :=
  let s := s.skip (· == ' ')
  let s := if s.peek == '#' then s.skip (fun c => !isBreakOrEnd c) else s
  if isBreakOrEnd s.peek then .ok s.lineBreak.2 else .error .badBlockHeader

/-- The empty lines before the first line, and the widest indentation among them. -/
def leadingBreaks : Nat → Nat → Source → List Char × Nat × Source
  | 0, widest, s => ([], widest, s)
  | fuel + 1, widest, s =>
    if s.peek == ' ' then
      let s := s.advance
      leadingBreaks fuel (max widest s.column) s
    else if isBreak s.peek then
      let (b, s) := s.lineBreak
      let (more, widest, s) := leadingBreaks fuel widest s
      (b ++ more, widest, s)
    else ([], widest, s)

def indentation (indent : Nat) (s : Source) : Source :=
  s.forward ((s.rest.takeWhile (· == ' ')).length.min (indent - s.column))

def blockBreaks (indent : Nat) : Nat → Source → List Char × Source
  | 0, s => ([], s)
  | fuel + 1, s =>
    let s := indentation indent s
    if isBreak s.peek then
      let (b, s) := s.lineBreak
      let (more, s) := blockBreaks indent fuel s
      (b ++ more, s)
    else ([], s)

def isBlankStart (c : Char) : Bool := c == ' ' || c == '\t'

/-- The lines of a block scalar, `breaks` before the first one. The last line break and
the empty lines after it are given apart. -/
def blockLines (folded : Bool) (indent : Nat) :
    Nat → List Char → Source → List Char × List Char × List Char × Source
  | 0, breaks, s => ([], [], breaks, s)
  | fuel + 1, breaks, s =>
    let spaced := isBlankStart s.peek
    let (line, s) := s.span fun c => !isBreakOrEnd c
    let (b, s) := s.lineBreak
    let (more, s) := blockBreaks indent (s.rest.length + 1) s
    if s.column = indent ∧ isEnd s.peek = false then
      let glue :=
        if folded && b == ['\n'] && !spaced && !isBlankStart s.peek then
          if more.isEmpty then [' '] else []
        else b
      let (text, last, trailing, s) := blockLines folded indent fuel more s
      (breaks ++ line ++ glue ++ text, last, trailing, s)
    else (breaks ++ line, b, more, s)

def block (folded : Bool) (parent : Int) (s : Source) : Except Fault (List Char × Source) := do
  let h ← header s.advance
  let s ← headerEnd h.source
  let least := (max (parent + 1) 1).toNat
  let (breaks, indent, s) := match h.increment with
    | some n =>
      let indent := least + n - 1
      let (breaks, s) := blockBreaks indent (s.rest.length + 1) s
      (breaks, indent, s)
    | none =>
      let (breaks, widest, s) := leadingBreaks (s.rest.length + 1) 0 s
      (breaks, max least widest, s)
  let (text, last, trailing, s) :=
    if s.column = indent ∧ isEnd s.peek = false then
      blockLines folded indent (s.rest.length + 1) breaks s
    else ([], [], breaks, s)
  return (text ++ (if h.chomping = .strip then [] else last)
    ++ (if h.chomping = .keep then trailing else []), s)

end ScalarText

end RomListing.Yaml

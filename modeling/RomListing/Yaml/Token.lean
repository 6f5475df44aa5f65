import RomListing.Text.Utf8
import RomListing.Yaml.ScalarText

/-!
# Tokens of a YAML text

Indentation opens and closes blocks, so tokens for block starts and ends are put in where
no character stands for them. A key need not be marked: when a `:` shows that what came
before it on the line was a key, the key token is put in at that place.
-/

namespace RomListing.Yaml

inductive Token where
  | directive (name : String) (arguments : List String)
  | documentStart
  | documentEnd
  | streamEnd
  | blockSequenceStart
  | blockMappingStart
  | blockEnd
  | flowSequenceStart
  | flowSequenceEnd
  | flowMappingStart
  | flowMappingEnd
  | blockEntry
  | flowEntry
  | key
  | value
  | alias (name : String)
  | anchor (name : String)
  | tag (handle : Option String) (rest : String)
  | scalar (text : Text) (plain : Bool)
  deriving DecidableEq

/-- A place where a key may have started. -/
structure KeyPlace where
  /-- The number of tokens before it. -/
  tokens : Nat
  /-- Nothing else than a key can stand there. -/
  required : Bool
  index : Nat
  line : Nat
  column : Nat

structure Scanner where
  source : Source
  tokens : Array Token := #[]
  flowDepth : Nat := 0
  indent : Int := -1
  /-- The indentations of the blocks around the current one. -/
  outer : List Int := []
  /-- A key may start at the next token. -/
  keyAllowed : Bool := true
  /-- The place where a key may have started, by flow depth. -/
  keys : List (Nat × KeyPlace) := []

namespace Scanner

def emit (st : Scanner) (t : Token) : Scanner := { st with tokens := st.tokens.push t }

def inFlow (st : Scanner) : Bool := st.flowDepth != 0

/-- Closes the blocks that are indented more than `column`. -/
def unwind (column : Int) : Nat → Scanner → Scanner
  | 0, st => st
  | fuel + 1, st =>
    if st.inFlow || st.indent ≤ column then st
    else
      let st := { st with indent := st.outer.headD (-1), outer := st.outer.tail }
      unwind column fuel (st.emit .blockEnd)

def unwindTo (st : Scanner) (column : Int) : Scanner := st.unwind column (st.outer.length + 1)

/-- Starts a block at `column` if it is indented more than the current one. -/
def startBlock (st : Scanner) (column : Int) (position : Nat) (t : Token) : Scanner :=
  if st.indent < column then
    { st with
      indent := column
      outer := st.indent :: st.outer
      tokens := st.tokens.insertIdxIfInBounds position t }
  else st

def dropKey (st : Scanner) : Except Fault Scanner :=
  match st.keys.lookup st.flowDepth with
  | none => .ok st
  | some k =>
    if k.required then .error .missingColon
    else .ok { st with keys := st.keys.filter (·.1 != st.flowDepth) }

def markKey (st : Scanner) : Except Fault Scanner :=
  if st.keyAllowed then do
    let required := !st.inFlow && st.indent == (st.source.column : Int)
    let st ← st.dropKey
    let place : KeyPlace :=
      { tokens := st.tokens.size
        required := required
        index := st.source.index
        line := st.source.line
        column := st.source.column }
    return { st with keys := (st.flowDepth, place) :: st.keys }
  else .ok st

/-- A key is on one line and not longer than 1024 characters. -/
def isStale (st : Scanner) (k : KeyPlace) : Bool :=
  k.line != st.source.line || 1024 + k.index < st.source.index

def dropStaleKeys (st : Scanner) : Except Fault Scanner :=
  if st.keys.any fun (_, k) => st.isStale k && k.required then .error .missingColon
  else .ok { st with keys := st.keys.filter fun (_, k) => !st.isStale k }

def skipGap : Nat → Scanner → Scanner
  | 0, st => st
  | fuel + 1, st =>
    let s := st.source.skip (· == ' ')
    let s := if s.peek == '#' then s.skip (fun c => !isBreakOrEnd c) else s
    if isBreak s.peek then
      skipGap fuel
        { st with source := s.lineBreak.2, keyAllowed := st.keyAllowed || !st.inFlow }
    else { st with source := s }

/-! ## Single tokens -/

def mark (st : Scanner) (width : Nat) (t : Token) : Scanner :=
  { st with source := st.source.forward width }.emit t

def openFlow (st : Scanner) (t : Token) : Except Fault Scanner := do
  let st ← st.markKey
  return { st with flowDepth := st.flowDepth + 1, keyAllowed := true }.mark 1 t

def closeFlow (st : Scanner) (t : Token) : Except Fault Scanner := do
  let st ← st.dropKey
  if st.inFlow then
    return { st with flowDepth := st.flowDepth - 1, keyAllowed := false }.mark 1 t
  else .error .unexpectedToken

def flowEntry (st : Scanner) : Except Fault Scanner := do
  let st ← { st with keyAllowed := true }.dropKey
  return st.mark 1 .flowEntry

def blockEntry (st : Scanner) : Except Fault Scanner := do
  let st ←
    if st.inFlow then pure st
    else if st.keyAllowed then
      pure (st.startBlock st.source.column st.tokens.size .blockSequenceStart)
    else .error .misplacedEntry
  let st ← { st with keyAllowed := true }.dropKey
  return st.mark 1 .blockEntry

def explicitKey (st : Scanner) : Except Fault Scanner := do
  let st ←
    if st.inFlow then pure st
    else if st.keyAllowed then
      pure (st.startBlock st.source.column st.tokens.size .blockMappingStart)
    else .error .misplacedKey
  let st ← { st with keyAllowed := !st.inFlow }.dropKey
  return st.mark 1 .key

def value (st : Scanner) : Except Fault Scanner :=
  match st.keys.lookup st.flowDepth with
  | some k =>
    let st := { st with
      keys := st.keys.filter (·.1 != st.flowDepth)
      tokens := st.tokens.insertIdxIfInBounds k.tokens .key
      keyAllowed := false }
    let st := if st.inFlow then st else st.startBlock k.column k.tokens .blockMappingStart
    .ok (st.mark 1 .value)
  | none => do
    let st ←
      if st.inFlow then pure st
      else if st.keyAllowed then
        pure (st.startBlock st.source.column st.tokens.size .blockMappingStart)
      else .error .misplacedValue
    let st ← { st with keyAllowed := !st.inFlow }.dropKey
    return st.mark 1 .value

def isNameChar (c : Char) : Bool := c.isAlphanum || c == '-' || c == '_'

def name (st : Scanner) (t : String → Token) : Except Fault Scanner := do
  let st ← st.markKey
  let (name, s) := st.source.advance.span isNameChar
  let follows := isGap s.peek || ['?', ':', ',', ']', '\x7d', '%', '@', '\x60'].contains s.peek
  if name.isEmpty || !follows then .error .badName
  else return { st with source := s, keyAllowed := false }.emit (t (String.ofList name))

def isUriChar (c : Char) : Bool :=
  c.isAlphanum || "-;/?:@&=+$,_.!~*'()[]%".toList.contains c

/-- Replaces the codes of bytes in a tag by the characters that the bytes stand for, the
bytes of `pending` having been read just before. -/
def uriText (pending : List UInt8) : List Char → Option (List Char)
  | '%' :: a :: b :: rest =>
    match ScalarText.hexValue a, ScalarText.hexValue b with
    | some x, some y => uriText (pending ++ [(16 * x + y).toUInt8]) rest
    | _, _ => none
  | '%' :: _ => none
  | c :: rest => do
    let here ← (Text.decodeUtf8 pending).toOption
    let more ← uriText [] rest
    return here ++ c :: more
  | [] => (Text.decodeUtf8 pending).toOption

def tagRest (s : Source) : Except Fault (String × Source) :=
  let (raw, s) := s.span isUriChar
  match uriText [] raw with
  | some (c :: cs) => .ok (String.ofList (c :: cs), s)
  | _ => .error .badTag

def tagHandle (s : Source) : Except Fault (String × Source) :=
  if s.peek == '!' then
    let (name, s) := s.advance.span isNameChar
    if s.peek == '!' then .ok (String.ofList ('!' :: name ++ ['!']), s.advance)
    else if name.isEmpty && s.peek == ' ' then .ok ("!", s)
    else .error .badTag
  else .error .badTag

def tag (st : Scanner) : Except Fault Scanner := do
  let st ← st.markKey
  let s := st.source
  let (t, s) ←
    if s.peekAt 1 == '<' then do
      let (rest, s) ← tagRest (s.forward 2)
      if s.peek == '>' then pure (Token.tag none rest, s.advance) else .error .badTag
    else if isGap (s.peekAt 1) then pure (Token.tag none "!", s.advance)
    else
      let word := (s.rest.drop 1).takeWhile fun c => !isSpaceOrEnd c
      if word.contains '!' then do
        let (handle, s) ← tagHandle s
        let (rest, s) ← tagRest s
        pure (Token.tag (some handle) rest, s)
      else do
        let (rest, s) ← tagRest s.advance
        pure (Token.tag (some "!") rest, s)
  if isSpaceOrEnd s.peek then
    return { st with source := s, keyAllowed := false }.emit t
  else .error .badTag

def blockScalar (st : Scanner) (folded : Bool) : Except Fault Scanner := do
  let st ← { st with keyAllowed := true }.dropKey
  let (cs, s) ← ScalarText.block folded st.indent st.source
  return { st with source := s }.emit (.scalar (Text.ofChars cs) false)

def quotedScalar (st : Scanner) (double : Bool) : Except Fault Scanner := do
  let st ← st.markKey
  let (text, s) ← ScalarText.quoted double st.source
  return { st with source := s, keyAllowed := false }.emit (.scalar text false)

def plainScalar (st : Scanner) : Except Fault Scanner := do
  let st ← st.markKey
  let p := ScalarText.plain st.inFlow (st.indent + 1) st.source
  return { st with source := p.source, keyAllowed := p.newLine }.emit
    (.scalar (Text.ofChars p.text) true)

/-- Ends all blocks, before a directive, a document mark or the end. -/
def endBlocks (st : Scanner) : Except Fault Scanner := do
  let st ← (st.unwindTo (-1)).dropKey
  return { st with keyAllowed := false }

/-- The rest of a directive's line, which may only hold a comment. -/
def directiveEnd (s : Source) : Except Fault Source :=
  let s := s.skip (· == ' ')
  let s := if s.peek == '#' then s.skip (fun c => !isBreakOrEnd c) else s
  if isBreakOrEnd s.peek then .ok s.lineBreak.2 else .error .badDirective

def versionNumber (s : Source) : Except Fault (String × Source) :=
  let (digits, s) := s.span Char.isDigit
  if digits.isEmpty then .error .badDirective
  else
    match Text.Integer.read 10 (Text.ofChars digits) with
    | .ok _ => .ok (String.ofList digits, s)
    | .error f => .error (.number f)

def versionDirective (s : Source) : Except Fault (List String × Source) := do
  let (major, s) ← versionNumber (s.skip (· == ' '))
  if s.peek != '.' then .error .badDirective
  let (minor, s) ← versionNumber s.advance
  if isSpaceOrEnd s.peek then return ([major, minor], s) else .error .badDirective

def tagDirective (s : Source) : Except Fault (List String × Source) := do
  let (handle, s) ← tagHandle (s.skip (· == ' '))
  if s.peek != ' ' then .error .badDirective
  let (lead, s) ← tagRest (s.skip (· == ' '))
  if isSpaceOrEnd s.peek then return ([handle, lead], s) else .error .badDirective

def directive (st : Scanner) : Except Fault Scanner := do
  let st ← st.endBlocks
  let (name, s) := st.source.advance.span isNameChar
  if name.isEmpty || !isSpaceOrEnd s.peek then .error .badDirective
  let name := String.ofList name
  let (arguments, s) ←
    if name == "YAML" then versionDirective s
    else if name == "TAG" then tagDirective s
    else pure ([], s.skip fun c => !isBreakOrEnd c)
  let s ← directiveEnd s
  return { st with source := s }.emit (.directive name arguments)

def startsPlain (st : Scanner) : Bool :=
  let c := st.source.peek
  let special := isGap c || "-?:,[]\x7b\x7d#&*!|>'\"%@\x60".toList.contains c
  !special || (!isGap (st.source.peekAt 1) && (c == '-' || (!st.inFlow && (c == '?' || c == ':'))))

/-- Reads one token; none is read at the end. -/
def step (st : Scanner) : Except Fault (Option Scanner) := do
  let st := st.skipGap (st.source.rest.length + 1)
  let st ← st.dropStaleKeys
  let st := st.unwindTo st.source.column
  let s := st.source
  let c := s.peek
  let gapNext := isGap (s.peekAt 1)
  if isEnd c then return none
  else if c == '%' && s.column == 0 then return some (← st.directive)
  else if s.column == 0 && s.atSeparator then
    let st ← st.endBlocks
    return some (st.mark 3 (if c == '-' then .documentStart else .documentEnd))
  else if c == '[' then return some (← st.openFlow .flowSequenceStart)
  else if c == '\x7b' then return some (← st.openFlow .flowMappingStart)
  else if c == ']' then return some (← st.closeFlow .flowSequenceEnd)
  else if c == '\x7d' then return some (← st.closeFlow .flowMappingEnd)
  else if c == ',' then return some (← st.flowEntry)
  else if c == '-' && gapNext then return some (← st.blockEntry)
  else if c == '?' && (st.inFlow || gapNext) then return some (← st.explicitKey)
  else if c == ':' && (st.inFlow || gapNext) then return some (← st.value)
  else if c == '*' then return some (← st.name .alias)
  else if c == '&' then return some (← st.name .anchor)
  else if c == '!' then return some (← st.tag)
  else if c == '|' && !st.inFlow then return some (← st.blockScalar false)
  else if c == '>' && !st.inFlow then return some (← st.blockScalar true)
  else if c == '\'' then return some (← st.quotedScalar false)
  else if c == '"' then return some (← st.quotedScalar true)
  else if st.startsPlain then return some (← st.plainScalar)
  else .error (.unexpectedCharacter c)

def finish (st : Scanner) : Except Fault (List Token) := do
  let st := st.skipGap (st.source.rest.length + 1)
  let st ← st.dropStaleKeys
  let st ← (st.unwindTo (-1)).dropKey
  return (st.emit .streamEnd).tokens.toList

/-- The tokens that no later one can come before. -/
def settled (st : Scanner) : List Token :=
  let waiting := (st.keys.filter fun (_, k) => !st.isStale k).map fun (_, k) => k.tokens
  st.tokens.toList.take (waiting.foldl min st.tokens.size)

end Scanner

structure Scan where
  tokens : List Token
  fault : Option Fault := none

namespace Scanner

/-- Reads tokens to the end. Each one takes a character at least. -/
def scan : Nat → Scanner → Scan
  | 0, st => ⟨st.settled, none⟩
  | fuel + 1, st =>
    match st.step with
    | .error f => ⟨st.settled, some f⟩
    | .ok (some next) => scan fuel next
    | .ok none =>
      match st.finish with
      | .error f => ⟨st.settled, some f⟩
      | .ok tokens => ⟨tokens, none⟩

end Scanner

/-- The tokens of a text. A byte order mark at its start does not count. -/
def tokens (text : Text) : Scan :=
  match text.find? (!·.is isAllowed) with
  | some l => ⟨[], some (.unprintable l)⟩
  | none =>
    let source : Source := { rest := text.chars }
    let source := if source.peek == '\uFEFF' then source.advance else source
    Scanner.scan (text.length + 2) { source := source }

end RomListing.Yaml

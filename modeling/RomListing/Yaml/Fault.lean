import RomListing.Text.Integer

/-!
# Faults of YAML documents
-/

namespace RomListing.Yaml

inductive Fault where
  | unprintable (l : Letter)
  | unexpectedCharacter (c : Char)
  | misplacedEntry
  | misplacedKey
  | misplacedValue
  | missingColon
  | badDirective
  | badName
  | badTag
  | badBlockHeader
  | badEscape
  | unterminatedQuote
  | separatorInQuote
  | unexpectedToken
  | unknownTagHandle
  | unknownAlias (name : String)
  | duplicateAnchor (name : String)
  | severalDocuments
  | unknownTag
  | wrongShape
  | badBytes
  | unhashableKey
  | badMerge
  /-- An escape names a code that no character has. -/
  | codeRange (code : Nat)
  /-- The number of a version cannot be read. -/
  | number (f : Text.Integer.Fault)
  /-- Collections stand too deep within each other. -/
  | tooDeep
  deriving DecidableEq

def Fault.message : Fault → String
  | .unprintable _ => "special characters are not allowed"
  | .unexpectedCharacter c => "found character " ++ String.ofList ['\'', c, '\'']
      ++ " that cannot start any token"
  | .misplacedEntry => "sequence entries are not allowed here"
  | .misplacedKey => "mapping keys are not allowed here"
  | .misplacedValue => "mapping values are not allowed here"
  | .missingColon => "while scanning a simple key: could not find expected ':'"
  | .badDirective => "while scanning a directive: unexpected character"
  | .badName => "while scanning an anchor or alias: unexpected character"
  | .badTag => "while scanning a tag: unexpected character"
  | .badBlockHeader => "while scanning a block scalar: unexpected character"
  | .badEscape => "while scanning a double-quoted scalar: unknown escape"
  | .unterminatedQuote => "while scanning a quoted scalar: unexpected end of stream"
  | .separatorInQuote => "while scanning a quoted scalar: unexpected document separator"
  | .unexpectedToken => "while parsing a node: unexpected token"
  | .unknownTagHandle => "found undefined tag handle"
  | .unknownAlias name => "found undefined alias '" ++ name ++ "'"
  | .duplicateAnchor name => "found duplicate anchor '" ++ name ++ "'"
  | .severalDocuments => "expected a single document in the stream"
  | .unknownTag => "could not determine a constructor for the tag"
  | .wrongShape => "the tag does not fit the node"
  | .badBytes => "failed to decode base64 data"
  | .unhashableKey => "while constructing a mapping: found unhashable key"
  | .badMerge => "while constructing a mapping: expected a mapping for merging"
  | .codeRange _ => "chr() arg not in range(0x110000)"
  | .number f => f.message
  | .tooDeep => "collections are nested too deeply"

end RomListing.Yaml

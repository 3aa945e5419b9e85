import Shortfall.Text.Quoted

/-!
# What can be wrong with a YAML document

Three stages can refuse a document. Its characters or its structure may be malformed (`Problem`),
its nodes may not fit together (`Fault`), or its values may not have the shape that a reader asks
for (`Mismatch`). Mismatches are collected, so that one reading reports all of them; everything
else ends the reading at once.

Lines are counted from one. A structural problem on the first line is reported without a line.
-/

namespace Shortfall.Yaml

/-- Why characters or structure are malformed. -/
inductive Problem where
  | controlCharacter
  | badLeadingOctet
  | incompleteSequence
  | badTrailingOctet
  | badSequenceLength
  | badCodePoint
  | incompleteUnit
  | strayLowSurrogate
  | incompletePair
  | missingLowSurrogate
  | simpleKeyWithoutColon
  | noToken
  | misplacedBlockEntry
  | misplacedKey
  | misplacedValue
  | directiveWithoutName
  | badDirectiveName
  | unknownDirective
  | noLineEnd
  | noVersionNumber
  | longVersionNumber
  | badVersionNumber
  | noExclamationMark
  | noWhitespace
  | noWhitespaceOrBreak
  | noTagUri
  | noEscapedOctet
  | badEscapedLeadingOctet
  | badEscapedTrailingOctet
  | emptyAnchor
  | unclosedTag
  | zeroIndentation
  | tabInIndentation
  | documentIndicatorInText
  | endInText
  | unknownEscape
  | badEscapeDigits
  | badEscapeCode
  | tabBeforeText
  | noDocumentStart
  | duplicateVersion
  | incompatibleVersion
  | duplicateTagHandle
  | undefinedTagHandle
  | noContent
  | noFlowSequenceSeparator
  | noFlowMappingSeparator
  | noBlockEntry
  | noBlockKey
  | tooDeep
  deriving DecidableEq, Repr

/-- Whether a problem is one of the characters, not of the structure. -/
def Problem.isOfCharacters : Problem → Bool
  | controlCharacter | badLeadingOctet | incompleteSequence | badTrailingOctet | badSequenceLength
  | badCodePoint | incompleteUnit | strayLowSurrogate | incompletePair | missingLowSurrogate => true
  | _ => false

def Problem.message : Problem → Text
  | controlCharacter => "control characters are not allowed"
  | badLeadingOctet => "invalid leading UTF-8 octet"
  | incompleteSequence => "incomplete UTF-8 octet sequence"
  | badTrailingOctet => "invalid trailing UTF-8 octet"
  | badSequenceLength => "invalid length of a UTF-8 sequence"
  | badCodePoint => "invalid Unicode character"
  | incompleteUnit => "incomplete UTF-16 character"
  | strayLowSurrogate => "unexpected low surrogate area"
  | incompletePair => "incomplete UTF-16 surrogate pair"
  | missingLowSurrogate => "expected low surrogate area"
  | simpleKeyWithoutColon => "could not find expected ':'"
  | noToken => "found character that cannot start any token"
  | misplacedBlockEntry => "block sequence entries are not allowed in this context"
  | misplacedKey => "mapping keys are not allowed in this context"
  | misplacedValue => "mapping values are not allowed in this context"
  | directiveWithoutName => "could not find expected directive name"
  | badDirectiveName => "found unexpected non-alphabetical character"
  | unknownDirective => "found unknown directive name"
  | noLineEnd => "did not find expected comment or line break"
  | noVersionNumber => "did not find expected version number"
  | longVersionNumber => "found extremely long version number"
  | badVersionNumber => "did not find expected digit or '.' character"
  | noExclamationMark => "did not find expected '!'"
  | noWhitespace => "did not find expected whitespace"
  | noWhitespaceOrBreak => "did not find expected whitespace or line break"
  | noTagUri => "did not find expected tag URI"
  | noEscapedOctet => "did not find URI escaped octet"
  | badEscapedLeadingOctet => "found an incorrect leading UTF-8 octet"
  | badEscapedTrailingOctet => "found an incorrect trailing UTF-8 octet"
  | emptyAnchor => "did not find expected alphabetic or numeric character"
  | unclosedTag => "did not find the expected '>'"
  | zeroIndentation => "found an indentation indicator equal to 0"
  | tabInIndentation => "found a tab character where an indentation space is expected"
  | documentIndicatorInText => "found unexpected document indicator"
  | endInText => "found unexpected end of stream"
  | unknownEscape => "found unknown escape character"
  | badEscapeDigits => "did not find expected hexdecimal number"
  | badEscapeCode => "found invalid Unicode character escape code"
  | tabBeforeText => "found a tab character that violates indentation"
  | noDocumentStart => "did not find expected <document start>"
  | duplicateVersion => "found duplicate %YAML directive"
  | incompatibleVersion => "found incompatible YAML document"
  | duplicateTagHandle => "found duplicate %TAG directive"
  | undefinedTagHandle => "found undefined tag handle"
  | noContent => "did not find expected node content"
  | noFlowSequenceSeparator => "did not find expected ',' or ']'"
  | noFlowMappingSeparator => "did not find expected ',' or '\x7d'"
  | noBlockEntry => "did not find expected '-' indicator"
  | noBlockKey => "did not find expected key"
  | tooDeep => "exceeded max depth of 10000"

/-- A value that does not have the shape a reader asked for. -/
inductive Mismatch where
  /-- A node with a tag and a text that does not fit a type. -/
  | wrongType (line : Nat) (tag text type : Text)
  | duplicateKey (line : Nat) (key : Text) (firstLine : Nat)
  | duplicateField (line : Nat) (field type : Text)
  deriving DecidableEq, Repr

/-- The text of a node as a message shows it behind the tag: between quotes, and cut off behind
seven bytes when it is long. The tag of a collection is followed by the bare text. -/
def excerpt (tag text : Text) : Text :=
  if tag = "!!seq" || tag = "!!map" then text
  else " `" ++ (if text.length > 10 then text.take 7 ++ "..." else text) ++ "`"

def Mismatch.message : Mismatch → Text
  | wrongType line tag text type =>
      "line " ++ Text.ofNat line ++ ": cannot unmarshal " ++ tag ++ excerpt tag text ++ " into "
        ++ type
  | duplicateKey line key firstLine =>
      "line " ++ Text.ofNat line ++ ": mapping key " ++ key.quoted ++ " already defined at line "
        ++ Text.ofNat firstLine
  | duplicateField line field type =>
      "line " ++ Text.ofNat line ++ ": field " ++ field ++ " already set in type " ++ type

inductive Fault where
  /-- Malformed characters or structure, with the line where one is reported. -/
  | malformed (problem : Problem) (line? : Option Nat)
  | unknownAnchor (name : Text)
  | selfContainingAnchor (name : Text)
  | excessiveAliasing
  | mergeWithoutMap
  | badBinary
  | tagMismatch (actual text expected : Text)
  /-- A collection as the key of a mapping that is read without a shape in mind. -/
  | badKey (key : Text)
  /-- A collection as a key that merging would have to compare. -/
  | incomparableKey (type : Text)
  | mismatches (mismatches : List Mismatch)
  deriving DecidableEq, Repr

def Fault.message : Fault → Text
  | malformed problem none => "yaml: " ++ problem.message
  | malformed problem (some line) =>
      "yaml: line " ++ Text.ofNat line ++ ": " ++ problem.message
  | unknownAnchor name => "yaml: unknown anchor '" ++ name ++ "' referenced"
  | selfContainingAnchor name => "yaml: anchor '" ++ name ++ "' value contains itself"
  | excessiveAliasing => "yaml: document contains excessive aliasing"
  | mergeWithoutMap => "yaml: map merge requires map or sequence of maps as the value"
  | badBinary => "yaml: !!binary value contains invalid base64 data"
  | tagMismatch actual text expected =>
      "yaml: cannot decode " ++ actual ++ " `" ++ text ++ "` as a " ++ expected
  | badKey key => "yaml: invalid map key: " ++ key
  | incomparableKey type => "yaml: runtime error: hash of unhashable type " ++ type
  | mismatches list =>
      "yaml: unmarshal errors:\n  " ++ Text.joinWith "\n  " (list.map Mismatch.message)

end Shortfall.Yaml

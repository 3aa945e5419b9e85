import Shortfall.Text.Numeral
import Shortfall.Text.Quoted

/-!
# What can be wrong with a TOML document

A document is read line by line. A line may be malformed, it may define what is defined already,
and its values may be out of bounds; the first fault of the first faulty line is reported.
-/

namespace Shortfall.Toml

/-- The notations of integers. -/
inductive Base where
  | decimal
  | hexadecimal
  | octal
  | binary
  deriving DecidableEq, Repr

def Base.radix : Base → Nat
  | decimal => 10
  | hexadecimal => 16
  | octal => 8
  | binary => 2

def Base.name : Base → Text
  | decimal => "decimal"
  | hexadecimal => "hexadecimal"
  | octal => "octal"
  | binary => "binary"

/-- What a key stands for. -/
inductive Kind where
  | value
  | table
  | arrayTable
  deriving DecidableEq, Repr

def Kind.name : Kind → Text
  | value => "value"
  | table => "table"
  | arrayTable => "array table"

inductive Fault where
  /-- A character that has to come next, and does not. -/
  | expected (byte : UInt8)
  | expectedAtEnd (byte : UInt8)
  | noLineEnd (found : UInt8)
  | lineEndCut
  | lineEndBroken
  | badComment
  | keyAlone
  | noValue
  | noWord (word : Text)
  | incompleteTable
  | incompleteArray
  | leadingComma
  | missingComma
  | noKey
  | badKey (found : UInt8)
  -- Texts.
  | breakInLiteral
  | openLiteral
  | quotesInLiteral
  | openLongLiteral
  | breakInBasic
  | openBasic
  | quotesInBasic
  | openLongBasic
  | returnAlone
  | nothingEscaped
  | badCharacter
  | badEncoding
  | badByte (found : UInt8)
  | badEscape (found : UInt8)
  | shortCode (wanted given : Nat)
  | badHexDigit
  | badCodePoint
  -- Numbers.
  | incompleteNumber
  | strayLetter (letter : UInt8)
  | underscoreFirst
  | underscoreLast
  | underscoresAdjacent
  | underscoreBeforeExponent
  | underscoreAfterExponent
  | underscoreAfterPoint
  | underscoreBeforePoint
  | leadingZero
  | badInteger (base : Base) (numeral : Text) (error : Text.NumeralError)
  | pointFirst
  | pointLast
  | twoPoints
  | noDigitBeforePoint
  | noDigitAfterPoint
  | leadingZeros
  | badFloat (numeral : Text) (error : Text.NumeralError)
  -- Dates and times.
  | badDateForm
  | badDateTimeForm
  | badTimeForm
  | badDigit
  | impossibleDate
  | badSeparator
  | hourTooLarge
  | noColonBehindHours
  | minutesTooLarge
  | noColonBehindMinutes
  | secondsTooLarge
  | emptyFraction
  | noFraction
  | badZone
  | badZoneSign
  | noColonInZone
  | zoneHoursTooLarge
  | zoneMinutesTooLarge
  | restBehindZone
  | restBehindTime
  | restBehindDateTime
  -- Definitions.
  | noTable (key : Text) (kind : Kind)
  | notTable (key : Text) (kind : Kind)
  | tableAgain (key : Text)
  | notArrayTable (key : Text) (kind : Kind)
  | keyAgain (key : Text)
  | tableClosed (key : Text)
  deriving DecidableEq, Repr

/-- A byte as the code point of the same number, followed by the character where it can be
shown. -/
def codePoint (byte : UInt8) : Text :=
  let c := Char.ofNat byte.toNat
  let digits : Text := (Text.ofHex 4 byte.toNat).map fun digit =>
    if 0x61 ≤ digit && digit ≤ 0x7A then digit - 0x20 else digit
  "U+" ++ digits
    ++ (if Text.isPrintable c then " '" ++ String.utf8EncodeChar c ++ "'" else [])

/-- A byte as the character of the same number. -/
def character (byte : UInt8) : Text := String.utf8EncodeChar (Char.ofNat byte.toNat)

namespace Fault

def body : Fault → Text
  | expected byte => "expected character " ++ character byte
  | expectedAtEnd byte =>
      "expected character " ++ character byte ++ " but the document ended here"
  | noLineEnd found => "expected newline but got " ++ codePoint found
  | lineEndCut => "windows new line expected"
  | lineEndBroken => "windows new line should be \\r\\n"
  | badComment => "invalid character in comment"
  | keyAlone => "expected = after a key, but the document ends there"
  | noValue => "expected value, not eof"
  | noWord word => "expected '" ++ word ++ "'"
  | incompleteTable => "inline table is incomplete"
  | incompleteArray => "array is incomplete"
  | leadingComma => "array cannot start with comma"
  | missingComma => "array elements must be separated by commas"
  | noKey => "expected key but found none"
  | badKey found => "invalid character at start of key: " ++ character found
  | breakInLiteral => "literal strings cannot have new lines"
  | openLiteral => "unterminated literal string"
  | quotesInLiteral => "''' not allowed in multiline literal string"
  | openLongLiteral => "multiline literal string not terminated by '''"
  | breakInBasic => "basic strings cannot have new lines"
  | openBasic => "basic string not terminated by \""
  | quotesInBasic => "\"\"\" not allowed in multiline basic string"
  | openLongBasic => "multiline basic string not terminated by \"\"\""
  | returnAlone => "need a \\n after \\r"
  | nothingEscaped => "need a character after \\"
  | badCharacter => "invalid character"
  | badEncoding => "invalid UTF-8"
  | badByte found => "invalid character " ++ codePoint found
  | badEscape found => "invalid escaped character " ++ codePoint found
  | shortCode wanted given =>
      "unicode point needs " ++ Text.ofNat wanted ++ " character, not " ++ Text.ofNat given
  | badHexDigit => "non-hex character"
  | badCodePoint => "escape sequence is invalid Unicode code point"
  | incompleteNumber => "incomplete number"
  | strayLetter letter =>
      "unexpected character '" ++ character letter ++ "' while scanning for a number"
  | underscoreFirst => "number cannot start with underscore"
  | underscoreLast => "number cannot end with underscore"
  | underscoresAdjacent => "number must have at least one digit between underscores"
  | underscoreBeforeExponent => "cannot have underscore before exponent"
  | underscoreAfterExponent => "cannot have underscore after exponent"
  | underscoreAfterPoint => "cannot have underscore after decimal point"
  | underscoreBeforePoint => "cannot have underscore before decimal point"
  | leadingZero => "leading zero not allowed on decimal number"
  | badInteger base numeral error =>
      "couldn't parse " ++ base.name ++ " number: strconv.ParseInt: parsing " ++ numeral.quoted
        ++ ": " ++ error.message
  | pointFirst => "float cannot start with a dot"
  | pointLast => "float cannot end with a dot"
  | twoPoints => "float can have at most one decimal point"
  | noDigitBeforePoint => "float decimal point must be preceded by a digit"
  | noDigitAfterPoint => "float decimal point must be followed by a digit"
  | leadingZeros => "float integer part cannot have leading zeroes"
  | badFloat numeral error =>
      "unable to parse float: strconv.ParseFloat: parsing " ++ numeral.quoted ++ ": "
        ++ error.message
  | badDateForm => "dates are expected to have the format YYYY-MM-DD"
  | badDateTimeForm =>
      "local datetimes are expected to have the format YYYY-MM-DDTHH:MM:SS[.NNNNNNNNN]"
  | badTimeForm => "times are expected to have the format HH:MM:SS[.NNNNNN]"
  | badDigit => "expected digit (0-9)"
  | impossibleDate => "impossible date"
  | badSeparator => "datetime separator is expected to be T or a space"
  | hourTooLarge => "hour cannot be greater 23"
  | noColonBehindHours => "expecting colon between hours and minutes"
  | minutesTooLarge => "minutes cannot be greater 59"
  | noColonBehindMinutes => "expecting colon between minutes and seconds"
  | secondsTooLarge => "seconds cannot be greater than 59"
  | emptyFraction => "need at least one digit after fraction point"
  | noFraction => "nanoseconds need at least one digit"
  | badZone => "invalid date-time timezone"
  | badZoneSign => "invalid timezone offset character"
  | noColonInZone => "expected a : separator"
  | zoneHoursTooLarge => "invalid timezone offset hours"
  | zoneMinutesTooLarge => "invalid timezone offset minutes"
  | restBehindZone => "extra bytes at the end of the timezone"
  | restBehindTime => "extra characters at the end of a local time"
  | restBehindDateTime => "extra characters at the end of a local date time"
  | noTable key kind => "expected " ++ key ++ " to be a table, not a " ++ kind.name
  | notTable key kind => "key " ++ key ++ " should be a table, not a " ++ kind.name
  | tableAgain key => "table " ++ key ++ " already exists"
  | notArrayTable key kind =>
      "key " ++ kind.name ++ " already exists as a " ++ key ++ ",  but should be an array table"
  | keyAgain key => "key " ++ key ++ " is already defined"
  | tableClosed key =>
      "cannot redefine table " ++ key ++ " that has already been explicitly defined"

def message (fault : Fault) : Text := "toml: " ++ fault.body

end Fault

end Shortfall.Toml

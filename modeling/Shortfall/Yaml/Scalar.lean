import Shortfall.Binary64.Numeral
import Shortfall.Calendar
import Shortfall.Text.Base64
import Shortfall.Text.Numeral
import Shortfall.Word
import Shortfall.Yaml.Node

/-!
# Values of scalars

What a scalar means follows from its text: a plain `12` is a number and a plain `true` a truth
value, while everything without a meaning of its own is text. The first character tells which
meanings are worth trying. A tag that is written out and describes a meaning must agree with what
the text means; any other tag makes the scalar text.
-/

namespace Shortfall.Yaml

inductive ScalarValue where
  | null
  | bool (b : Bool)
  /-- A signed or unsigned integer of 64 bits. -/
  | int (n : Int)
  | float (f : Binary64)
  | timestamp (moment : Calendar.Moment)
  | text (text : Text)
  deriving DecidableEq, Repr

/-- A value with the tag that describes it. -/
abbrev Tagged := Text × ScalarValue

/-- Words with a meaning of their own. -/
def keywords : List (List Text × Tagged) := [
  (["true", "True", "TRUE"], (Tag.bool, .bool true)),
  (["false", "False", "FALSE"], (Tag.bool, .bool false)),
  (["", "~", "null", "Null", "NULL"], (Tag.null, .null)),
  ([".nan", ".NaN", ".NAN"], (Tag.float, .float .nan)),
  ([".inf", ".Inf", ".INF", "+.inf", "+.Inf", "+.INF"], (Tag.float, .float (.infinity false))),
  (["-.inf", "-.Inf", "-.INF"], (Tag.float, .float (.infinity true)))]

def keyword? (text : Text) : Option Tagged :=
  (keywords.find? fun (words, _) => words.contains text).map (·.2)

/-! ## Floating-point numerals -/

/-- A numeral with an optional sign. -/
def float? (text : Text) : Option Binary64 := (Binary64.parse text).toOption

/-- Whether every underscore stands between two digits. -/
def underscoresBetweenDigits : (before : Option UInt8) → Text → Bool
  | _, [] => true
  | before, byte :: rest =>
      (byte ≠ 0x5F || (before.any Text.isDigit && rest.head?.any Text.isDigit))
        && underscoresBetweenDigits (some byte) rest

/-- A numeral that starts with its point, in which underscores may separate digits. -/
def pointFloat? (text : Text) : Option Binary64 :=
  if underscoresBetweenDigits none text then float? (text.filter (· ≠ 0x5F)) else none

/-! ## Time stamps -/

def dateFields : List Calendar.Field :=
  [.year, .sign 0x2D, .month false, .sign 0x2D, .day false]

def timeFields : List Calendar.Field :=
  [.hour, .sign 0x3A, .minute false, .sign 0x3A, .second false]

def timestampLayouts : List (List Calendar.Field) := [
  dateFields ++ [.sign 0x54] ++ timeFields ++ [.zone],
  dateFields ++ [.sign 0x74] ++ timeFields ++ [.zone],
  dateFields ++ [.spaces] ++ timeFields,
  dateFields]

/-- A time stamp starts with four digits and a hyphen. -/
def timestamp? (text : Text) : Option Calendar.Moment :=
  if (text.takeWhile Text.isDigit).length = 4 && text[4]? = some 0x2D then
    timestampLayouts.findSome? fun layout => Calendar.parse? layout text
  else none

/-! ## Meaning -/

/-- An integer in the given base, signed or else unsigned. -/
def intIn? (base : Nat) (digits : Text) : Option Int :=
  match Text.parseIntIn base digits with
  | .ok n => some n
  | .error _ =>
      match Text.valueIn base digits with
      | .ok n => some n
      | .error _ => none

/-- The integer behind a marker of its base, which a minus sign may precede. -/
def markedInt? (marker : Text) (base : Nat) (text : Text) : Option Int :=
  if text.startsWith marker then intIn? base (text.drop marker.length)
  else if text.startsWith (0x2D :: marker) then
    match Text.parseIntIn base (0x2D :: text.drop (marker.length + 1)) with
    | .ok n => some n
    | .error _ => none
  else none

/-- The integer a numeral denotes, signed or else unsigned. -/
def announcedInt? (text : Text) : Option Int :=
  match Text.parseInt text with
  | .ok n => some n
  | .error _ =>
      match Text.announcedValue text with
      | .ok n => some n
      | .error _ => none

/-- The meaning of a text that starts with a digit or a sign. -/
def numeric? (tag text : Text) : Option Tagged :=
  match if tag.isEmpty || tag = Tag.timestamp then timestamp? text else none with
  | some moment => some (Tag.timestamp, .timestamp moment)
  | none =>
      let digits := text.filter (· ≠ 0x5F)
      match announcedInt? digits with
      | some n => some (Tag.int, .int n)
      | none =>
          match float? digits with
          | some f => some (Tag.float, .float f)
          | none =>
              ((markedInt? "0b" 2 digits).or (markedInt? "0o" 8 digits)).map
                fun n => (Tag.int, .int n)

/-- What a text means under a tag that does not make it text. -/
def meaning? (tag text : Text) : Option Tagged :=
  match text with
  | [] => keyword? text
  | first :: _ =>
      if Text.isDigit first || first = 0x2B || first = 0x2D then
        (keyword? text).or (numeric? tag text)
      else if first = 0x2E then
        (keyword? text).or ((pointFloat? text).map fun f => (Tag.float, .float f))
      else if ("yYnNtTfFoO~" : Text).contains first then keyword? text
      else none

/-- The value of a scalar without an explicit tag. -/
def implicitValue (text : Text) : Tagged := (meaning? [] text).getD (Tag.str, .text text)

/-- The tags that describe a meaning; any other tag leaves the text as it is. -/
def meaningTags : List Text :=
  [[], Tag.str, Tag.bool, Tag.int, Tag.float, Tag.null, Tag.timestamp]

/-- The value of a scalar under a tag, which the meaning of the text must agree with. An integer
may be tagged as a floating-point number. -/
def valueUnder (tag text : Text) : Except Fault Tagged :=
  if !meaningTags.contains tag then .ok (tag, .text text)
  else if tag = Tag.str then .ok (Tag.str, .text text)
  else
    let (actual, value) := (meaning? tag text).getD (Tag.str, .text text)
    if tag.isEmpty || tag = actual then .ok (actual, value)
    else
      match value with
      | .int n =>
          if tag = Tag.float && n < Word.signBound then
            .ok (Tag.float, .float ((Binary64.ofDecimal? (n < 0) n.natAbs 0).getD .nan))
          else .error (.tagMismatch actual text tag)
      | _ => .error (.tagMismatch actual text tag)

end Shortfall.Yaml

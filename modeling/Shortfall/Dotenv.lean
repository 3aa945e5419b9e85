import Shortfall.Text.Blank

/-!
# Files of variables

A file in which each line gives a value to a name, as in `NAME=value`. A value may stand between
quotes and then go over several lines. Between double quotes escapes are resolved, and outside of
single quotes `$NAME` stands for a variable: one of the environment, or else one that an earlier
line of the file has set.
-/

namespace Shortfall.Dotenv

inductive Fault where
  | missingQuotes
  | unsetVariable (line : Text)
  | malformed (line : Text)
  | lineTooLong
  deriving DecidableEq, Repr

def Fault.message : Fault → Text
  | missingQuotes => "missing quotes"
  | unsetVariable line => "line `" ++ line ++ "` has an unset variable"
  | malformed line => "line `" ++ line ++ "` doesn't match format"
  | lineTooLong => "bufio.Scanner: token too long"

abbrev Table := List (Text × Text)

/-! ## Encoding -/

/-- The 16-bit units of a text; the last one is missing where only half of it is there. -/
def units (littleEndian : Bool) : Text → List (Option Nat)
  | [] => []
  | [_] => [none]
  | a :: b :: rest =>
      some (if littleEndian then b.toNat * 256 + a.toNat else a.toNat * 256 + b.toNat)
        :: units littleEndian rest

/-- The character of a unit that stands alone. -/
def loneUnit (unit : Nat) : Char :=
  if 0xD800 ≤ unit && unit < 0xE000 then Text.replacement else Char.ofNat unit

/-- The character of two units, of which the second is the low half of a pair. -/
def unitPair (high low : Nat) : Char :=
  if high < 0xDC00 then Char.ofNat (0x10000 + (high - 0xD800) * 0x400 + (low - 0xDC00))
  else Text.replacement

/-- The characters that units spell. What is no character becomes the replacement character. -/
def ofUnits : List (Option Nat) → List Char
  | [] => []
  | none :: rest => Text.replacement :: ofUnits rest
  | some unit :: some low :: rest =>
      if 0xD800 ≤ unit && unit < 0xE000 && 0xDC00 ≤ low && low < 0xE000 then
        unitPair unit low :: ofUnits rest
      else loneUnit unit :: ofUnits (some low :: rest)
  | some unit :: rest => loneUnit unit :: ofUnits rest

/-- The text behind the mark of its encoding, if it has one. -/
def decoded : Text → Text
  | 0xEF :: 0xBB :: 0xBF :: rest => Text.mend rest
  | 0xFF :: 0xFE :: rest => Text.ofChars (ofUnits (units true rest))
  | 0xFE :: 0xFF :: rest => Text.ofChars (ofUnits (units false rest))
  | text => text

/-! ## Lines -/

/-- The lines of a text behind what was read of the first one. A line feed, a carriage return or
both end a line. -/
def linesFrom (reversed : Text) : Text → List Text
  | [] => if reversed.isEmpty then [] else [reversed.reverse]
  | 0x0D :: 0x0A :: rest => reversed.reverse :: linesFrom [] rest
  | byte :: rest =>
      if byte = 0x0A || byte = 0x0D then reversed.reverse :: linesFrom [] rest
      else linesFrom (byte :: reversed) rest

def lines (text : Text) : List Text := linesFrom [] text

/-- The length from which on a line is not read. -/
def lineLimit : Nat := 65536

/-- The last place of a byte in a text. -/
def lastIndex? (byte : UInt8) (text : Text) : Option Nat :=
  (text.cutAtLastByte? byte).map fun (front, _) => front.length

/-- The quote that the value of a line opens and does not close. -/
def openQuote? (line : Text) : Option UInt8 :=
  match (line.cutAtByte? 0x3D).or (line.cutAtByte? 0x3A) with
  | none => none
  | some (front, back) =>
      let value := Text.trim back
      if front.isEmpty || back.isEmpty then none
      else
        match value with
        | [] => none
        | quote :: inner =>
            if quote ≠ 0x22 && quote ≠ 0x27 then none
            else
              match lastIndex? quote (Text.trim inner) with
              | some index => if value[index]? = some 0x5C then some quote else none
              | none => some quote

/-- Whether a line closes a quote that was opened before it. -/
def closes (quote : UInt8) (text : Text) : Bool :=
  match lastIndex? quote text with
  | none => false
  | some index => index = 0 || text[index - 1]? ≠ some 0x5C

/-- Adds lines to a line whose quote is open, up to the one that closes it. -/
def continued? (quote : UInt8) (line : Text) : List Text → Option (Text × List Text)
  | [] => none
  | next :: rest =>
      let line := line ++ [0x0A] ++ next
      if closes quote next then some (line, rest) else continued? quote line rest

/-! ## Assignments -/

def isSpace (byte : UInt8) : Bool :=
  byte = 0x20 || byte = 0x09 || byte = 0x0A || byte = 0x0C || byte = 0x0D

def isNameByte (byte : UInt8) : Bool :=
  Text.isDigit byte || (0x41 ≤ byte && byte ≤ 0x5A) || (0x61 ≤ byte && byte ≤ 0x7A)
    || byte = 0x5F || byte = 0x2E

/-- Whether nothing but white space and a comment follows. -/
def isTail (text : Text) : Bool :=
  match text.dropWhile isSpace with
  | [] => true
  | byte :: rest => byte = 0x23 && !rest.contains 0x0A

/-- The longest text between quotes at the front that only a tail follows. `reversed` holds what
was passed so far, with the opening quote. -/
def quotedValue? (quote : UInt8) (reversed : Text) : Text → Option Text
  | [] => none
  | byte :: rest =>
      match quotedValue? quote (byte :: reversed) rest with
      | some value => some value
      | none => if byte = quote && isTail rest then some (byte :: reversed).reverse else none

/-- The value at the front of a text that holds nothing else but a comment. -/
def value? (text : Text) : Option Text :=
  let quoted := match text with
    | [] => none
    | quote :: rest =>
        if quote = 0x27 || quote = 0x22 then quotedValue? quote [quote] rest else none
  match quoted with
  | some value => some value
  | none =>
      let run := text.takeWhile fun byte => byte ≠ 0x23 && byte ≠ 0x0A
      if isTail (text.dropWhile fun byte => byte ≠ 0x23 && byte ≠ 0x0A) then some run else none

/-- The value behind a colon, of which at least one white space must be left out. -/
def valueBehindColon? : Text → Option Text
  | [] => none
  | byte :: rest =>
      if !isSpace byte then none
      else
        match value? rest with
        | some value => some value
        | none => valueBehindColon? rest

/-- The name and the value of an assignment. -/
def assignment? (text : Text) : Option (Text × Text) :=
  let name := text.takeWhile isNameByte
  let rest := text.dropWhile isNameByte
  if name.isEmpty then none
  else
    let value :=
      match rest.dropWhile isSpace with
      | 0x3D :: behind => value? (behind.dropWhile isSpace)
      | _ => none
    match value, rest with
    | some value, _ => some (name, value)
    | none, 0x3A :: behind => (valueBehindColon? behind).map fun value => (name, value)
    | none, _ => none

def exportWord : Text := "export"

/-- The name and the value that a line gives; it may start with the word `export`. -/
def split? (line : Text) : Option (Text × Text) :=
  let line := line.dropWhile isSpace
  let behind := line.drop exportWord.length
  let exported :=
    if Text.startsWith line exportWord && behind.head?.any isSpace then
      assignment? (behind.dropWhile isSpace)
    else none
  exported.or (assignment? line)

/-! ## Values -/

/-- Replaces an escape of two bytes. -/
def replaceEscape (letter byte : UInt8) : Text → Text
  | 0x5C :: next :: rest =>
      if next = letter then byte :: replaceEscape letter byte rest
      else 0x5C :: replaceEscape letter byte (next :: rest)
  | first :: rest => first :: replaceEscape letter byte rest
  | [] => []

/-- Drops the backslashes in front of anything but a dollar sign. -/
def dropBackslashes : Text → Text
  | 0x5C :: next :: rest =>
      if next = 0x24 then 0x5C :: dropBackslashes (next :: rest) else next :: dropBackslashes rest
  | first :: rest => first :: dropBackslashes rest
  | [] => []

/-- A part of a value. -/
inductive Segment where
  | plain (text : Text)
  | named (name : Text)
  deriving DecidableEq, Repr

def isVariableByte (byte : UInt8) : Bool :=
  Text.isDigit byte || (0x41 ≤ byte && byte ≤ 0x5A) || byte = 0x5F

/-- What a dollar sign at the front of a text refers to: the reference as it is written, the name
in it, and what follows. -/
def reference (behind : Text) : Text × Text × Text :=
  let (brace, rest) : Text × Text := match behind with
    | 0x7B :: rest => ([0x7B], rest)
    | _ => ([], behind)
  let name := rest.takeWhile isVariableByte
  let rest := rest.dropWhile isVariableByte
  let (closing, rest) : Text × Text := match rest with
    | 0x7D :: rest => ([0x7D], rest)
    | _ => ([], rest)
  (0x24 :: brace ++ name ++ closing, name, rest)

/-- The plain parts of a value and the variables between them. A backslash in front of a dollar
sign makes it plain and is left out. -/
def segments : (fuel : Nat) → Text → List Segment
  | 0, _ => []
  | _ + 1, [] => []
  | fuel + 1, 0x5C :: 0x24 :: rest =>
      let (written, _, rest) := reference rest
      .plain written :: segments fuel rest
  | fuel + 1, 0x24 :: rest =>
      let (written, name, rest) := reference rest
      (if name.isEmpty then .plain written else .named name) :: segments fuel rest
  | fuel + 1, byte :: rest => .plain [byte] :: segments fuel rest

section

variable {m : Type → Type} [Monad m]

/-- The text of a part of a value. The environment goes before the file. -/
def Segment.text (environment : Text → m (Option Text)) (known : Table) : Segment → m Text
  | .plain text => return text
  | .named name => do
      match ← environment name with
      | some value => return value
      | none => return (known.lookup name).getD []

/-- The value that a written value stands for. -/
def resolve (environment : Text → m (Option Text)) (known : Table) (written : Text) : m Text := do
  let written := Text.trim written
  let quote? := match written with
    | quote :: next :: rest =>
        if (quote = 0x22 || quote = 0x27) && (next :: rest).getLast? = some quote then some quote
        else none
    | _ => none
  let body := if quote?.isSome then (written.drop 1).dropLast else written
  if quote? = some 0x27 then return body
  let body :=
    if quote? = some 0x22 then
      dropBackslashes (replaceEscape 0x72 0x0D (replaceEscape 0x6E 0x0A body))
    else body
  let parts ← (segments (body.length + 1) body).mapM (·.text environment known)
  return parts.flatten

/-- Why a line is no assignment. A line that only exports a variable needs it to be set. -/
def faultOf (known : Table) (line : Text) : Fault :=
  let text := Text.trim line
  match Text.cutAtByte? 0x20 text with
  | some (_, name) =>
      if Text.startsWith text exportWord && (known.lookup name).isNone then .unsetVariable text
      else .malformed line
  | none => .malformed line

/-- Sets a variable, in its old place where it has one. -/
def set (name value : Text) : Table → Table
  | [] => [(name, value)]
  | (key, old) :: rest =>
      if key = name then (key, value) :: rest else (key, old) :: set name value rest

/-- Reads lines on top of the variables that are known. `cut` tells whether a line that is too
long follows them. -/
def readLines (environment : Text → m (Option Text)) (cut : Bool) : (fuel : Nat) → List Text →
    Table → m (Except Fault Table)
  | 0, _, known => return .ok known
  | _ + 1, [], known => return if cut then .error .lineTooLong else .ok known
  | fuel + 1, line :: rest, known => do
      let line := Text.trim line
      if line.isEmpty || line.head? = some 0x23 then
        return ← readLines environment cut fuel rest known
      let whole? := match openQuote? line with
        | none => some (line, rest)
        | some quote => continued? quote line rest
      match whole? with
      | none => return .error .missingQuotes
      | some (line, rest) =>
          match split? line with
          | none => return .error (faultOf known line)
          | some (name, written) =>
              let value ← resolve environment known written
              readLines environment cut fuel rest (set name value known)

/-- The variables that a file sets. -/
def parse (environment : Text → m (Option Text)) (text : Text) : m (Except Fault Table) :=
  let all := lines (decoded text)
  let good := all.takeWhile (·.length < lineLimit)
  readLines environment (good.length < all.length) (good.length + 1) good []

end

end Shortfall.Dotenv

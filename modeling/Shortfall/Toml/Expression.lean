import Shortfall.Toml.Moment
import Shortfall.Toml.Quoted

/-!
# Lines of a TOML document

A line assigns a value to a key, or opens a table or an element of an array of tables. Numbers
and points in time are cut out here and kept as they are written; what they denote, and whether
they denote anything, is asked later.
-/

namespace Shortfall.Toml

/-- A key is a path of names, written with points between them. -/
abbrev Key := List Text

/-- A value as it is written. -/
inductive Raw where
  | text (text : Text)
  | bool (b : Bool)
  | integer (numeral : Text)
  | float (numeral : Text)
  | moment (scope : Calendar.Scope) (text : Text)
  | array (items : List Raw)
  | table (entries : List (Key × Raw))
  deriving Repr, Inhabited

inductive Expression where
  | assignment (key : Key) (value : Raw)
  | table (key : Key)
  | arrayTable (key : Key)
  deriving Repr

/-! ## Blanks and line ends -/

def skipBlanks (text : Text) : Text := text.dropWhile isBlank

/-- What follows a character that has to be there. -/
def expect (byte : UInt8) : Text → Except Fault Text
  | [] => .error (.expectedAtEnd byte)
  | found :: rest => if found = byte then .ok rest else .error (.expected byte)

/-- What follows a line end. -/
def skipLineEnd : Text → Except Fault Text
  | [] => .ok []
  | 0x0A :: rest => .ok rest
  | [0x0D] => .error .lineEndCut
  | 0x0D :: next :: rest => if next = 0x0A then .ok rest else .error .lineEndBroken
  | found :: _ => .error (.noLineEnd found)

/-- What follows a comment: the end of its line or of the document. -/
def skipComment (text : Text) : Except Fault Text :=
  let body := text.takeWhile fun byte => byte ≠ 0x0A && byte ≠ 0x0D
  let rest := text.dropWhile fun byte => byte ≠ 0x0A && byte ≠ 0x0D
  if (disallowed? body).isSome then .error .badComment
  else
    match rest with
    | 0x0D :: 0x0A :: _ => .ok rest
    | 0x0D :: _ => .error .badComment
    | _ => .ok rest

/-- What follows blanks, comments and line ends. -/
def skipLines : (fuel : Nat) → Text → Except Fault Text
  | 0, text => .ok text
  | fuel + 1, text => do
      let text := skipBlanks text
      let text ← if text.head? = some 0x23 then skipComment text else pure text
      if text.head? = some 0x0A || text.head? = some 0x0D then
        skipLines fuel (← skipLineEnd text)
      else return text

/-! ## Keys -/

def isKeyByte (byte : UInt8) : Bool :=
  Text.isDigit byte || (0x41 ≤ byte && byte ≤ 0x5A) || (0x61 ≤ byte && byte ≤ 0x7A)
    || byte = 0x2D || byte = 0x5F

/-- One name of a key. -/
def keyName : Text → Except Fault (Text × Text)
  | [] => .error .noKey
  | byte :: rest =>
      if byte = 0x27 then literalText rest
      else if byte = 0x22 then basicText rest
      else if isKeyByte byte then
        .ok ((byte :: rest).takeWhile isKeyByte, (byte :: rest).dropWhile isKeyByte)
      else .error (.badKey byte)

/-- The names of a key behind its first one. -/
def moreKeyNames : (fuel : Nat) → Text → Except Fault (Key × Text)
  | 0, text => .ok ([], text)
  | fuel + 1, text =>
      match skipBlanks text with
      | 0x2E :: rest => do
          let (name, rest) ← keyName (skipBlanks rest)
          let (names, rest) ← moreKeyNames fuel rest
          return (name :: names, rest)
      | rest => .ok ([], rest)

def key (text : Text) : Except Fault (Key × Text) := do
  let (name, rest) ← keyName text
  let (names, rest) ← moreKeyNames text.length rest
  return (name :: names, rest)

/-! ## Numbers and points in time -/

/-- The digits that a marker of a base allows. -/
def markedDigit? (marker : UInt8) : Option (UInt8 → Bool) :=
  if marker = 0x78 then some fun byte => byte = 0x5F || (Text.hexValue? byte).isSome
  else if marker = 0x6F then some fun byte => byte = 0x5F || (0x30 ≤ byte && byte ≤ 0x37)
  else if marker = 0x62 then some fun byte => byte = 0x5F || byte = 0x30 || byte = 0x31
  else none

def infinityWord : Text := "inf"

def noNumberWord : Text := "nan"

/-- Cuts a number that has no marker off. `float` tells whether it has a point or an exponent. -/
def cutNumber (float : Bool) (reversed : Text) : Text → Except Fault (Raw × Text)
  | [] => finish []
  | byte :: rest =>
      if Text.isDigit byte || byte = 0x2B || byte = 0x2D || byte = 0x5F then
        cutNumber float (byte :: reversed) rest
      else if byte = 0x2E || byte = 0x65 || byte = 0x45 then
        cutNumber true (byte :: reversed) rest
      else if byte = 0x69 || byte = 0x6E then
        let word := if byte = 0x69 then infinityWord else noNumberWord
        if Text.startsWith (byte :: rest) word then
          .ok (.float (reversed.reverse ++ word), rest.drop 2)
        else .error (.strayLetter byte)
      else finish (byte :: rest)
where
  finish (rest : Text) : Except Fault (Raw × Text) :=
    if reversed.isEmpty then .error .incompleteNumber
    else if float then .ok (.float reversed.reverse, rest)
    else .ok (.integer reversed.reverse, rest)

/-- Cuts a number off. A zero in front ends a number that goes on without a marker, a point or an
exponent. -/
def number (text : Text) : Except Fault (Raw × Text) :=
  match text with
  | 0x30 :: second :: third :: rest =>
      if second = 0x2E || second = 0x65 || second = 0x45 then cutNumber false [] text
      else
        match markedDigit? second with
        | some allowed =>
            .ok (.integer (0x30 :: second :: (third :: rest).takeWhile allowed),
              (third :: rest).dropWhile allowed)
        | none => .ok (.integer [0x30], second :: third :: rest)
  | _ => cutNumber false [] text

/-- Whether a text starts like a time of day or a date: with two digits and a colon, or four
digits and a hyphen. -/
def startsMoment (text : Text) : Bool :=
  let digits := (text.takeWhile Text.isDigit).length
  (digits = 2 && text[2]? = some 0x3A) || (digits = 4 && text[4]? = some 0x2D)

/-- A number, or a point in time. -/
def numberOrMoment (text : Text) : Except Fault (Raw × Text) :=
  if text.head? = some 0x69 then
    if text.startsWith infinityWord then .ok (.float infinityWord, text.drop 3)
    else .error (.noWord infinityWord)
  else if text.head? = some 0x6E then
    if text.startsWith noNumberWord then .ok (.float noNumberWord, text.drop 3)
    else .error (.noWord noNumberWord)
  else if startsMoment text then
    let (front, extent, rest) := cutMoment 0 {} text
    .ok (.moment extent.scope front, rest)
  else number text

/-! ## Values -/

mutual

def value : (fuel : Nat) → Text → Except Fault (Raw × Text)
  | 0, _ => .error .noValue
  | _ + 1, [] => .error .noValue
  | fuel + 1, byte :: rest =>
      let text : Text := byte :: rest
      if byte = 0x22 || byte = 0x27 then do
        let (body, rest) ← quotedText text
        return (.text body, rest)
      else if byte = 0x74 then
        if Text.startsWith text "true" then .ok (.bool true, text.drop 4)
        else .error (.noWord "true")
      else if byte = 0x66 then
        if Text.startsWith text "false" then .ok (.bool false, text.drop 5)
        else .error (.noWord "false")
      else if byte = 0x5B then do
        let (items, rest) ← arrayItems fuel true rest
        return (.array items, rest)
      else if byte = 0x7B then do
        let (entries, rest) ← tableEntries fuel true rest
        return (.table entries, rest)
      else numberOrMoment text

/-- The items of an array, which commas and line ends may separate. -/
def arrayItems : (fuel : Nat) → (first : Bool) → Text → Except Fault (List Raw × Text)
  | 0, _, _ => .error .incompleteArray
  | fuel + 1, first, text => do
      if text.isEmpty then throw (.expectedAtEnd 0x5D)
      let text ← skipLines (text.length + 1) text
      match text with
      | [] => throw .incompleteArray
      | 0x5D :: rest => return ([], rest)
      | byte :: rest =>
          let text ←
            if byte = 0x2C then
              if first then throw .leadingComma else skipLines (rest.length + 1) rest
            else if first then pure text
            else throw .missingComma
          match text with
          | 0x5D :: rest => return ([], rest)
          | text =>
              let (item, rest) ← value fuel text
              let rest ← skipLines (rest.length + 1) rest
              let (items, rest) ← arrayItems fuel false rest
              return (item :: items, rest)

/-- The entries of a table on one line. -/
def tableEntries : (fuel : Nat) → (first : Bool) → Text → Except Fault (List (Key × Raw) × Text)
  | 0, _, _ => .error .incompleteTable
  | fuel + 1, first, text => do
      if text.isEmpty then throw (.expectedAtEnd 0x7D)
      match skipBlanks text with
      | [] => throw .incompleteTable
      | 0x7D :: rest => return ([], rest)
      | text =>
          let text ← if first then pure text else pure (skipBlanks (← expect 0x2C text))
          let (entry, rest) ← assignment fuel text
          let (entries, rest) ← tableEntries fuel false rest
          return (entry :: entries, rest)

/-- A key with the value that is assigned to it. -/
def assignment : (fuel : Nat) → Text → Except Fault ((Key × Raw) × Text)
  | 0, _ => .error .noKey
  | fuel + 1, text => do
      let (key, rest) ← key text
      let rest := skipBlanks rest
      if rest.isEmpty then throw .keyAlone
      let rest ← expect 0x3D rest
      let (value, rest) ← value fuel (skipBlanks rest)
      return ((key, value), rest)

end

/-! ## Lines -/

/-- A line that opens a table or an element of an array of tables, behind its first bracket. -/
def header (text : Text) : Except Fault (Expression × Text) := do
  match text with
  | 0x5B :: rest =>
      let (key, rest) ← key (skipBlanks rest)
      let rest ← expect 0x5D (← expect 0x5D (skipBlanks rest))
      return (.arrayTable key, rest)
  | _ =>
      let (key, rest) ← key (skipBlanks text)
      return (.table key, ← expect 0x5D (skipBlanks rest))

/-- What a line says, if anything, with what follows it. -/
def line (text : Text) : Except Fault (Option Expression × Text) := do
  let text := skipBlanks text
  match text with
  | [] => return (none, [])
  | 0x23 :: _ => return (none, ← skipComment text)
  | 0x0A :: _ | 0x0D :: _ => return (none, text)
  | byte :: rest =>
      let (expression, rest) ←
        if byte = 0x5B then header rest
        else do
          let ((key, value), rest) ← assignment (2 * text.length + 2) text
          pure (Expression.assignment key value, rest)
      let rest := skipBlanks rest
      if rest.head? = some 0x23 then return (some expression, ← skipComment rest)
      else return (some expression, rest)

end Shortfall.Toml

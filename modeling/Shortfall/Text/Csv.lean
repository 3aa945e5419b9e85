import Shortfall.Text

/-!
# Comma-separated values

One record of fields that commas separate. A field that starts with a quote runs to the quote that
ends it: inside, a quote is written twice, and commas and line ends stand for themselves. Lines
that are empty come before no record. A carriage return in front of a line end, or at the very
end, does not count.

The text is taken apart into lines first. Positions are kept only to say where a record is
malformed: lines and columns count from one, and columns count bytes.
-/

namespace Shortfall.Text.Csv

/-- Why a text holds no record. -/
inductive Error where
  | noRecord
  /-- A quote inside a field that does not start with one. -/
  | bareQuote (startLine line column : Nat)
  /-- A quoted field that does not end, or that goes on behind its end. -/
  | badQuote (startLine line column : Nat)
  deriving DecidableEq, Repr

def positionText (startLine line column : Nat) : Text :=
  let here := "parse error on line " ++ Text.ofNat line ++ ", column " ++ Text.ofNat column ++ ": "
  if startLine = line then here
  else "record on line " ++ Text.ofNat startLine ++ "; " ++ here

def Error.message : Error → Text
  | noRecord => "EOF"
  | bareQuote startLine line column =>
      positionText startLine line column ++ "bare \" in non-quoted-field"
  | badQuote startLine line column =>
      positionText startLine line column ++ "extraneous or missing \" in quoted-field"

/-! ## Lines -/

/-- A line with its end, where a carriage return in front of the end is dropped. -/
def endLine (line : Text) : Text :=
  (if line.getLast? = some 0x0D then line.dropLast else line) ++ [0x0A]

/-- The last line, which has no end. -/
def lastLine (line : Text) : Text :=
  if line.getLast? = some 0x0D then line.dropLast else line

/-- The lines of a text, each with its end, apart from a last one that has none. -/
def lines (text : Text) : List Text :=
  match (text.splitAtByte 0x0A).reverse with
  | [] => []
  | last :: ended =>
      ended.reverse.map endLine ++ if (lastLine last).isEmpty then [] else [lastLine last]

def isEmptyLine (line : Text) : Bool := line.isEmpty || line = [0x0A]

/-- A line without its end. -/
def withoutEnd (line : Text) : Text := if line.getLast? = some 0x0A then line.dropLast else line

/-! ## Fields -/

/-- A place in the lines: what is left of the current one, and the lines behind it. -/
structure Cursor where
  line : Nat
  column : Nat := 1
  rest : Text
  later : List Text

def Cursor.advance (cursor : Cursor) (n : Nat) : Cursor :=
  { cursor with rest := cursor.rest.drop n, column := cursor.column + n }

/-- A field, and the place behind the comma that ends it, if one does. -/
structure Field where
  content : Text
  next? : Option Cursor

/-- A field without quotes. -/
def plainField (startLine : Nat) (cursor : Cursor) : Except Error Field :=
  let comma := cursor.rest.takeWhile (· ≠ 0x2C)
  let ended := comma.length < cursor.rest.length
  let content := if ended then comma else withoutEnd cursor.rest
  if content.contains 0x22 then
    .error (.bareQuote startLine cursor.line
      (cursor.column + (content.takeWhile (· ≠ 0x22)).length))
  else .ok { content, next? := if ended then some (cursor.advance (comma.length + 1)) else none }

/-- The rest of a quoted field. Each step passes a quote or a line, so `fuel` of the number of
bytes is enough. -/
def quotedField (startLine : Nat) : (fuel : Nat) → (content : Text) → Cursor → Except Error Field
  | 0, _, cursor => .error (.badQuote startLine cursor.line cursor.column)
  | fuel + 1, content, cursor =>
      let part := cursor.rest.takeWhile (· ≠ 0x22)
      if part.length < cursor.rest.length then
        let content := content ++ part
        let behind := cursor.advance (part.length + 1)
        match behind.rest with
        | 0x22 :: _ => quotedField startLine fuel (content ++ [0x22]) (behind.advance 1)
        | 0x2C :: _ => .ok { content, next? := some (behind.advance 1) }
        | rest =>
            if isEmptyLine rest then .ok { content, next? := none }
            else .error (.badQuote startLine behind.line (behind.column - 1))
      else
        match cursor.later with
        | [] =>
            .error (.badQuote startLine cursor.line (cursor.column + cursor.rest.length))
        | line :: later =>
            quotedField startLine fuel (content ++ cursor.rest)
              { line := cursor.line + 1, rest := line, later }

/-- The fields from a place on. -/
def fields (startLine : Nat) : (fuel : Nat) → Cursor → Except Error (List Text)
  | 0, _ => .ok []
  | fuel + 1, cursor =>
      let field :=
        match cursor.rest with
        | 0x22 :: _ => quotedField startLine (fuel + 1) [] (cursor.advance 1)
        | _ => plainField startLine cursor
      match field with
      | .error error => .error error
      | .ok { content, next? := none } => .ok [content]
      | .ok { content, next? := some next } =>
          match fields startLine fuel next with
          | .error error => .error error
          | .ok more => .ok (content :: more)

/-- The first line that is not empty, with its number and the lines behind it. -/
def firstLine? (number : Nat) : List Text → Option Cursor
  | [] => none
  | line :: later =>
      if isEmptyLine line then firstLine? (number + 1) later
      else some { line := number, rest := line, later }

/-- The first record of a text. -/
def record (text : Text) : Except Error (List Text) :=
  match firstLine? 1 (lines text) with
  | none => .error .noRecord
  | some cursor => fields cursor.line (text.length + 1) cursor

/-! ## Writing -/

def needsQuotes (field : Text) : Bool :=
  field.any fun byte => byte = 0x2C || byte = 0x22 || byte = 0x0D || byte = 0x0A

/-- A field as it is written: in quotes where it has to be. -/
def fieldText (field : Text) : Text :=
  if needsQuotes field then
    [0x22] ++ field.flatMap (fun byte => if byte = 0x22 then [0x22, 0x22] else [byte]) ++ [0x22]
  else field

/-- A record on a line of its own. -/
def recordText (fields : List Text) : Text := Text.joinWith "," (fields.map fieldText)

/-- The fields that are read where some were written. A line end inside of a field loses the
carriage return in front of it, and one empty field is none. -/
def reread (fields : List Text) : List Text :=
  match record (recordText fields) with
  | .ok fields => fields
  | .error _ => []

end Shortfall.Text.Csv

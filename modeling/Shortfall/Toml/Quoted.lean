import Shortfall.Text.Utf8
import Shortfall.Toml.Fault

/-!
# Texts in TOML

A text stands between double quotes, where a backslash starts an escape, or between single
quotes, where it does not. Three quotes open a text of several lines: a line end right behind
them is dropped, and up to two quotes may stand in front of the three that close it.

A text is first cut out up to its closing quotes, and only then are its characters looked at.
-/

namespace Shortfall.Toml

/-- The bytes of a text up to its end, and what comes behind the end. -/
abbrev Cut := Text × Except Fault Text

def Cut.prepend (bytes : Text) (cut : Cut) : Cut := (bytes ++ cut.1, cut.2)

/-- Characters that a document may hold: no control characters but tabs and line ends. -/
def isAllowed : Text.Piece → Bool
  | .stray _ => false
  | .char c =>
      let point := c.toNat
      point = 0x09 || point = 0x0A || point = 0x0D || (0x20 ≤ point && point ≠ 0x7F)

/-- The first byte of the first character that may not be there. -/
def disallowed? (text : Text) : Option UInt8 :=
  (text.pieces.find? (!isAllowed ·)).bind (·.bytes.head?)

/-! ## Cutting -/

/-- Cuts a text between single quotes. -/
def cutLiteral : Text → Cut
  | [] => ([], .error .openLiteral)
  | byte :: rest =>
      if byte = 0x27 then ([], .ok rest)
      else if byte = 0x0A || byte = 0x0D then ([], .error .breakInLiteral)
      else (cutLiteral rest).prepend [byte]

/-- Cuts a text between double quotes. What follows a backslash ends nothing. -/
def cutBasic : Text → Cut
  | [] => ([], .error .openBasic)
  | 0x5C :: [] => ([], .error .nothingEscaped)
  | 0x5C :: escaped :: rest => (cutBasic rest).prepend [0x5C, escaped]
  | byte :: rest =>
      if byte = 0x22 then ([], .ok rest)
      else if byte = 0x0A || byte = 0x0D then ([], .error .breakInBasic)
      else (cutBasic rest).prepend [byte]

/-- What closes a text of several lines, behind three quotes: the quotes among the next two that
belong to the text. -/
def closing (quote : UInt8) (tooMany : Fault) : Text → Cut
  | a :: b :: c :: rest =>
      if a ≠ quote then ([], .ok (a :: b :: c :: rest))
      else if b ≠ quote then ([quote], .ok (b :: c :: rest))
      else if c ≠ quote then ([quote, quote], .ok (c :: rest))
      else ([], .error tooMany)
  | [a, b] =>
      if a ≠ quote then ([], .ok [a, b])
      else if b ≠ quote then ([quote], .ok [b])
      else ([quote, quote], .ok [])
  | [a] => if a ≠ quote then ([], .ok [a]) else ([quote], .ok [])
  | [] => ([], .ok [])

/-- Cuts a text of several lines between single quotes. -/
def cutLongLiteral : Text → Cut
  | [] => ([], .error .openLongLiteral)
  | 0x27 :: 0x27 :: 0x27 :: rest => closing 0x27 .quotesInLiteral rest
  | 0x0D :: 0x0A :: rest => (cutLongLiteral rest).prepend [0x0D, 0x0A]
  | 0x0D :: _ => ([], .error .returnAlone)
  | byte :: rest => (cutLongLiteral rest).prepend [byte]

/-- Cuts a text of several lines between double quotes. -/
def cutLongBasic : Text → Cut
  | [] => ([], .error .openLongBasic)
  | 0x22 :: 0x22 :: 0x22 :: rest => closing 0x22 .quotesInBasic rest
  | 0x5C :: [] => ([], .error .nothingEscaped)
  | 0x5C :: escaped :: rest => (cutLongBasic rest).prepend [0x5C, escaped]
  | 0x0D :: 0x0A :: rest => (cutLongBasic rest).prepend [0x0D, 0x0A]
  | 0x0D :: _ => ([], .error .returnAlone)
  | byte :: rest => (cutLongBasic rest).prepend [byte]

/-! ## Escapes -/

/-- The character of a code written with `count` digits of base sixteen. `behind` stands behind
the text, where digits may be missing. -/
def codedCharacter (count : Nat) (text behind : Text) : Except Fault Text :=
  let digits := (text ++ behind).take count
  if digits.length < count then .error (.shortCode count digits.length)
  else
    match digits.mapM Text.hexValue? with
    | none => .error .badHexDigit
    | some values =>
        let point := values.foldl (fun n digit => n * 16 + digit) 0
        if h : point.isValidChar then .ok (String.utf8EncodeChar (Char.ofNatAux point h))
        else .error .badCodePoint

/-- Escapes of one letter, with the byte that each stands for. -/
def shortEscapes : List (UInt8 × UInt8) := [
  (0x22, 0x22), (0x5C, 0x5C), (0x62, 0x08), (0x66, 0x0C), (0x6E, 0x0A), (0x72, 0x0D),
  (0x74, 0x09), (0x65, 0x1B)]

def isBlank (byte : UInt8) : Bool := byte = 0x20 || byte = 0x09

/-- What follows a backslash at the end of a line: the text from the next character on that is no
blank and no line end. -/
def joinedLine? (text : Text) : Option Text :=
  let skip := fun (rest : Text) =>
    rest.dropWhile fun byte => isBlank byte || byte = 0x0A || byte = 0x0D
  match text.dropWhile isBlank with
  | 0x0A :: rest => some (skip rest)
  | 0x0D :: 0x0A :: rest => some (skip rest)
  | _ => none

/-- The text that escapes spell. `behind` is what closes the text; a text of several lines may
join its lines. -/
def unescape (long : Bool) (behind : Text) : (fuel : Nat) → Text → Except Fault Text
  | 0, _ => .ok []
  | _ + 1, [] => .ok []
  | fuel + 1, 0x5C :: rest =>
      match if long then joinedLine? rest else none with
      | some next => unescape long behind fuel next
      | none =>
          match rest with
          | [] => .ok []
          | letter :: rest =>
              let coded := fun (count : Nat) =>
                match codedCharacter count rest behind with
                | .error fault => .error fault
                | .ok spelled =>
                    match unescape long behind fuel (rest.drop count) with
                    | .error fault => .error fault
                    | .ok others => .ok (spelled ++ others)
              if letter = 0x75 then coded 4
              else if letter = 0x55 then coded 8
              else
                match shortEscapes.lookup letter with
                | none => .error (.badEscape letter)
                | some byte =>
                    match unescape long behind fuel rest with
                    | .error fault => .error fault
                    | .ok others => .ok (byte :: others)
  | fuel + 1, byte :: rest =>
      let run := (byte :: rest).takeWhile (· ≠ 0x5C)
      match disallowed? run with
      | some found => .error (.badByte found)
      | none =>
          match unescape long behind fuel ((byte :: rest).dropWhile (· ≠ 0x5C)) with
          | .error fault => .error fault
          | .ok others => .ok (run ++ others)

/-- The text without the line end at its front. -/
def dropLineEnd : Text → Text
  | 0x0A :: rest => rest
  | 0x0D :: 0x0A :: rest => rest
  | text => text

/-! ## Reading -/

/-- The text that stands behind an opening single quote, and what follows it. -/
def literalText (text : Text) : Except Fault (Text × Text) :=
  let (body, outcome) := cutLiteral text
  if (disallowed? body).isSome then .error .badCharacter
  else
    match outcome with
    | .error fault => .error fault
    | .ok rest => .ok (body, rest)

/-- The text that stands behind three opening single quotes, and what follows it. -/
def longLiteralText (text : Text) : Except Fault (Text × Text) :=
  let (body, outcome) := cutLongLiteral text
  if (disallowed? body).isSome then .error .badCharacter
  else
    match outcome with
    | .error fault => .error fault
    | .ok rest => .ok (dropLineEnd body, rest)

/-- Reads the characters between double quotes. -/
def basicBody (long : Bool) (behind body : Text) : Except Fault Text :=
  if body.contains 0x5C then unescape long behind (body.length + 1) body
  else if (disallowed? body).isSome then .error .badEncoding
  else .ok body

/-- The text that stands behind an opening double quote, and what follows it. -/
def basicText (text : Text) : Except Fault (Text × Text) :=
  let (body, outcome) := cutBasic text
  match outcome with
  | .error fault => .error fault
  | .ok rest =>
      match basicBody false [] body with
      | .error fault => .error fault
      | .ok spelled => .ok (spelled, rest)

/-- The text that stands behind three opening double quotes, and what follows it. -/
def longBasicText (text : Text) : Except Fault (Text × Text) :=
  let (body, outcome) := cutLongBasic text
  match outcome with
  | .error fault => .error fault
  | .ok rest =>
      match basicBody true [0x22, 0x22, 0x22] (dropLineEnd body) with
      | .error fault => .error fault
      | .ok spelled => .ok (spelled, rest)

/-- A text between quotes of any kind. -/
def quotedText (text : Text) : Except Fault (Text × Text) :=
  match text with
  | 0x22 :: 0x22 :: 0x22 :: rest => longBasicText rest
  | 0x22 :: rest => basicText rest
  | 0x27 :: 0x27 :: 0x27 :: rest => longLiteralText rest
  | 0x27 :: rest => literalText rest
  | _ => .error .noValue

end Shortfall.Toml

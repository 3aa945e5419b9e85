import Shortfall.Yaml.Token

/-!
# Tokens that carry text

Scalars in their five styles, anchors, tags and directives. Each function starts at the first
character of the token and returns the token with the place behind it.

Lines inside a scalar are folded: a single line break becomes a space and of several breaks the
first is dropped, unless the break is one of the Unicode separators. Literal scalars keep their
lines, and folded ones keep the breaks around lines that start with a blank.
-/

namespace Shortfall.Yaml

/-- The outcome of scanning a token. -/
abbrev Scanned := Except (Halt Cursor) (TokenKind × Cursor)

/-- The line breaks between two parts of a text, as they are folded. -/
def foldBreaks (first others : List Char) : List Char :=
  if first.head? = some '\n' then
    if others.isEmpty then [' '] else others
  else first ++ others

/-! ## Plain scalars -/

/-- What stands between the words of a scalar that is being read. -/
structure Gap where
  /-- Blanks on one line; of no account once the line is broken. -/
  blanks : List Char := []
  broken : Bool := false
  firstBreak : List Char := []
  laterBreaks : List Char := []

def Gap.text (gap : Gap) : List Char :=
  if gap.broken then foldBreaks gap.firstBreak gap.laterBreaks else gap.blanks

def Gap.addLine (gap : Gap) (chars : List Char) : Gap :=
  if gap.broken then { gap with laterBreaks := gap.laterBreaks ++ chars }
  else { gap with blanks := [], broken := true, firstBreak := gap.firstBreak ++ chars }

/-- Whether a plain scalar ends in front of this character. -/
def endsPlain (inFlow : Bool) (cursor : Cursor) : Bool :=
  match cursor.peek with
  | none => true
  | some c =>
      Peek.isBlankOrEnd (some c)
        || (c = ':' && Peek.isBlankOrEnd (cursor.peekAt 1))
        || (inFlow && (c = ',' || c = '?' || c = '[' || c = ']' || c = '\x7b' || c = '\x7d'))

/-- The characters up to the end of a word, in reverse, behind those in `word`. -/
def plainWord (inFlow : Bool) : (fuel : Nat) → (word : List Char) → Cursor →
    Except (Halt Cursor) (List Char × Cursor)
  | 0, word, cursor => .ok (word, cursor)
  | fuel + 1, word, cursor =>
      if endsPlain inFlow cursor then .ok (word, cursor)
      else do
        let behind ← cursor.skip.need 2
        plainWord inFlow fuel (cursor.peek.toList ++ word) behind

/-- The blanks and line breaks behind a word. -/
def plainGap (start : Mark) (indent : Int) : (fuel : Nat) → Gap → Cursor →
    Except (Halt Cursor) (Gap × Cursor)
  | 0, gap, cursor => .ok (gap, cursor)
  | fuel + 1, gap, cursor => do
      let cursor ← cursor.need 1
      if Peek.isBlank cursor.peek then
        if gap.broken then
          if (cursor.mark.column : Int) < indent && cursor.peek = some '\t' then
            throw (cursor.halt .tabBeforeText start)
          plainGap start indent fuel gap cursor.skip
        else
          plainGap start indent fuel { gap with blanks := gap.blanks ++ cursor.peek.toList }
            cursor.skip
      else if Peek.isBreak cursor.peek then
        let (chars, behind) := (← cursor.need 2).takeLine
        plainGap start indent fuel (gap.addLine chars) behind
      else return (gap, cursor)

/-- What scanning a plain scalar yields. -/
structure PlainScan where
  /-- In reverse. -/
  chars : List Char
  stop : Mark
  behind : Cursor
  /-- Whether the scalar was followed by a line break. -/
  broken : Bool

def plainLoop (start : Mark) (indent : Int) (inFlow : Bool) : (fuel : Nat) →
    (chars : List Char) → (stop : Mark) → Gap → Cursor → Except (Halt Cursor) PlainScan
  | 0, chars, stop, gap, cursor => .ok ⟨chars, stop, cursor, gap.broken⟩
  | fuel + 1, chars, stop, gap, cursor => do
      let cursor ← cursor.need 4
      if cursor.atDocumentIndicator || cursor.peek = some '#' then
        return ⟨chars, stop, cursor, gap.broken⟩
      let (word, behind) ← plainWord inFlow (cursor.bound + 1) [] cursor
      let chars := if word.isEmpty then chars else word ++ gap.text.reverse ++ chars
      let stop := if word.isEmpty then stop else behind.mark
      let gap := if word.isEmpty then gap else {}
      if !(Peek.isBlank behind.peek || Peek.isBreak behind.peek) then
        return ⟨chars, stop, behind, gap.broken⟩
      let (gap, behind) ← plainGap start indent (behind.bound + 1) gap behind
      if !inFlow && (behind.mark.column : Int) < indent then
        return ⟨chars, stop, behind, gap.broken⟩
      plainLoop start indent inFlow fuel chars stop gap behind

/-- Scans a plain scalar whose continuation lines are indented by at least `indent`. -/
def scanPlain (indent : Int) (inFlow : Bool) (cursor : Cursor) :
    Except (Halt Cursor) (PlainScan × Cursor) := do
  let scan ← plainLoop cursor.mark indent inFlow (cursor.bound + 1) [] cursor.mark {} cursor
  return (scan, scan.behind)

/-! ## Quoted scalars -/

/-- The character of a short escape. -/
def shortEscape? (c : Char) : Option Char :=
  match c with
  | '0' => some (Char.ofNat 0)
  | 'a' => some (Char.ofNat 7)
  | 'b' => some (Char.ofNat 8)
  | 't' => some '\t'
  | '\t' => some '\t'
  | 'n' => some '\n'
  | 'v' => some (Char.ofNat 11)
  | 'f' => some (Char.ofNat 12)
  | 'r' => some '\r'
  | 'e' => some (Char.ofNat 27)
  | ' ' => some ' '
  | '"' => some '"'
  | '\'' => some '\''
  | '\\' => some '\\'
  | 'N' => some (Char.ofNat 0x85)
  | '_' => some (Char.ofNat 0xA0)
  | 'L' => some (Char.ofNat 0x2028)
  | 'P' => some (Char.ofNat 0x2029)
  | _ => none

/-- How many digits an escape by code takes. -/
def codeLength? (c : Char) : Option Nat :=
  match c with
  | 'x' => some 2
  | 'u' => some 4
  | 'U' => some 8
  | _ => none

def hexCode? : (digits : Nat) → (value : Nat) → Cursor → Option Nat
  | 0, value, _ => some value
  | digits + 1, value, cursor =>
      match Peek.hex? cursor.peek with
      | some digit => hexCode? digits (value * 16 + digit) cursor.skip
      | none => none

/-- The character of an escape by code, read behind the letter, and the place behind it. -/
def scanEscapeCode (start : Mark) (digits : Nat) (cursor : Cursor) :
    Except (Halt Cursor) (Char × Cursor) := do
  let cursor ← cursor.need digits
  match hexCode? digits 0 cursor with
  | none => throw (cursor.halt .badEscapeDigits start)
  | some code =>
      if (0xD800 ≤ code && code ≤ 0xDFFF) || code > 0x10FFFF then
        throw (cursor.halt .badEscapeCode start)
      return (Char.ofNat code, cursor.skipMany digits)

/-- The character of an escape, read at its backslash, and the place behind it. -/
def scanEscape (start : Mark) (cursor : Cursor) : Except (Halt Cursor) (Char × Cursor) :=
  match cursor.peekAt 1 with
  | none => .error (cursor.halt .unknownEscape start)
  | some letter =>
      match shortEscape? letter with
      | some c => .ok (c, cursor.skipMany 2)
      | none =>
          match codeLength? letter with
          | none => .error (cursor.halt .unknownEscape start)
          | some digits => scanEscapeCode start digits (cursor.skipMany 2)

/-- The characters of a quoted scalar up to the next blank, break or closing quote, in reverse.
The flag tells whether an escaped line break was met. -/
def quotedWord (start : Mark) (quote : Char) : (fuel : Nat) → (chars : List Char) → Cursor →
    Except (Halt Cursor) (List Char × Bool × Cursor)
  | 0, chars, cursor => .ok (chars, false, cursor)
  | fuel + 1, chars, cursor =>
      match cursor.peek with
      | none => .ok (chars, false, cursor)
      | some c =>
          if Peek.isBlankOrEnd (some c) then .ok (chars, false, cursor)
          else if quote = '\'' && c = '\'' && cursor.peekAt 1 = some '\'' then do
            let behind ← (cursor.skipMany 2).need 2
            quotedWord start quote fuel ('\'' :: chars) behind
          else if c = quote then .ok (chars, false, cursor)
          else if quote = '"' && c = '\\' then
            if Peek.isBreak (cursor.peekAt 1) then do
              let cursor ← cursor.need 3
              return (chars, true, cursor.skip.skipLine)
            else do
              let (escaped, behind) ← scanEscape start cursor
              let behind ← behind.need 2
              quotedWord start quote fuel (escaped :: chars) behind
          else do
            let behind ← cursor.skip.need 2
            quotedWord start quote fuel (c :: chars) behind

/-- The blanks and line breaks behind a part of a quoted scalar. -/
def quotedGap : (fuel : Nat) → Gap → Cursor → Except (Halt Cursor) (Gap × Cursor)
  | 0, gap, cursor => .ok (gap, cursor)
  | fuel + 1, gap, cursor => do
      let cursor ← cursor.need 1
      if Peek.isBlank cursor.peek then
        let gap :=
          if gap.broken then gap else { gap with blanks := gap.blanks ++ cursor.peek.toList }
        quotedGap fuel gap cursor.skip
      else if Peek.isBreak cursor.peek then
        let (chars, behind) := (← cursor.need 2).takeLine
        quotedGap fuel (gap.addLine chars) behind
      else return (gap, cursor)

def quotedLoop (start : Mark) (quote : Char) : (fuel : Nat) → (chars : List Char) → Cursor →
    Except (Halt Cursor) (List Char × Cursor)
  | 0, chars, cursor => .ok (chars, cursor)
  | fuel + 1, chars, cursor => do
      let cursor ← cursor.need 4
      if cursor.atDocumentIndicator then
        throw (cursor.halt .documentIndicatorInText start)
      if cursor.atEnd then throw (cursor.halt .endInText start)
      let (chars, escapedBreak, cursor) ←
        quotedWord start quote (cursor.bound + 1) chars cursor
      let cursor ← cursor.need 1
      if cursor.peek = some quote then return (chars, cursor.skip)
      let (gap, cursor) ← quotedGap (cursor.bound + 1) { broken := escapedBreak } cursor
      quotedLoop start quote fuel (gap.text.reverse ++ chars) cursor

/-- Scans a quoted scalar. -/
def scanQuoted (quote : Char) (cursor : Cursor) : Scanned := do
  let (chars, behind) ← quotedLoop cursor.mark quote (cursor.bound + 1) [] cursor.skip
  let style := if quote = '\'' then ScalarStyle.singleQuoted else .doubleQuoted
  return (.scalar (Text.ofChars chars.reverse) style, behind)

/-! ## Block scalars -/

/-- What happens to the line breaks at the end of a block scalar. -/
inductive Chomping where
  | strip
  | clip
  | keep
  deriving DecidableEq, Repr

def chomping? (c? : Peek) : Option Chomping :=
  if c? = some '+' then some .keep else if c? = some '-' then some .strip else none

/-- The indentation indicator, if there is one. -/
def scanIncrement (start : Mark) (cursor : Cursor) : Except (Halt Cursor) (Nat × Cursor) := do
  let cursor ← cursor.need 1
  match Peek.digit? cursor.peek with
  | none => return (0, cursor)
  | some 0 => throw (cursor.halt .zeroIndentation start)
  | some digit => return (digit, cursor.skip)

/-- The indicators of a block scalar, which may come in either order. -/
def scanBlockHeader (start : Mark) (cursor : Cursor) :
    Except (Halt Cursor) (Chomping × Nat × Cursor) := do
  let cursor ← cursor.need 1
  match chomping? cursor.peek with
  | some chomping =>
      let (increment, cursor) ← scanIncrement start cursor.skip
      return (chomping, increment, cursor)
  | none =>
      let (increment, cursor) ← scanIncrement start cursor
      if increment = 0 then return (.clip, 0, cursor)
      let cursor ← cursor.need 1
      match chomping? cursor.peek with
      | some chomping => return (chomping, increment, cursor.skip)
      | none => return (.clip, increment, cursor)

/-- Past the indentation of a line, which has as many spaces as it takes when `indent` is not
known yet. -/
def skipIndentation (indent : Nat) : (fuel : Nat) → Cursor → Except (Halt Cursor) Cursor
  | 0, cursor => .ok cursor
  | fuel + 1, cursor => do
      let cursor ← cursor.need 1
      if (indent = 0 || cursor.mark.column < indent) && cursor.peek = some ' ' then
        skipIndentation indent fuel cursor.skip
      else return cursor

/-- The empty lines in front of the next line of text, and the deepest indentation among them. -/
def blockBreaks (start : Mark) (indent : Nat) : (fuel : Nat) → (deepest : Nat) →
    (breaks : List Char) → Cursor → Except (Halt Cursor) (List Char × Nat × Cursor)
  | 0, deepest, breaks, cursor => .ok (breaks, deepest, cursor)
  | fuel + 1, deepest, breaks, cursor => do
      let cursor ← skipIndentation indent (cursor.bound + 1) cursor
      let deepest := max deepest cursor.mark.column
      if (indent = 0 || cursor.mark.column < indent) && cursor.peek = some '\t' then
        throw (cursor.halt .tabInIndentation start)
      if Peek.isBreak cursor.peek then
        let (chars, behind) := (← cursor.need 2).takeLine
        blockBreaks start indent fuel deepest (breaks ++ chars) behind
      else return (breaks, deepest, cursor)

/-- The text of a block scalar, in reverse, with the breaks that were not yet added to it. -/
structure BlockScan where
  chars : List Char
  lastBreak : List Char
  laterBreaks : List Char
  behind : Cursor

def blockLoop (start : Mark) (literal : Bool) (indent : Nat) : (fuel : Nat) →
    (afterBlank : Bool) → BlockScan → Except (Halt Cursor) BlockScan
  | 0, _, scan => .ok scan
  | fuel + 1, afterBlank, scan => do
      let cursor := scan.behind
      if !(cursor.mark.column = indent && !cursor.atEnd) then return scan
      let onBlank := Peek.isBlank cursor.peek
      let join :=
        if !literal && !afterBlank && !onBlank && scan.lastBreak.head? = some '\n' then
          if scan.laterBreaks.isEmpty then [' '] else []
        else scan.lastBreak
      let (line, behind) ← cursor.readWhile fun c => !isBreakChar c
      let (lastBreak, behind) := (← behind.need 2).takeLine
      let (laterBreaks, _, behind) ←
        blockBreaks start indent (behind.bound + 1) 0 [] behind
      blockLoop start literal indent fuel onBlank
        { chars := line.reverse ++ scan.laterBreaks.reverse ++ join.reverse ++ scan.chars
          lastBreak, laterBreaks, behind }

/-- Scans a block scalar inside a block that is indented by `parent`. -/
def scanBlock (parent : Int) (literal : Bool) (cursor : Cursor) : Scanned := do
  let start := cursor.mark
  let (chomping, increment, cursor) ← scanBlockHeader start cursor.skip
  let cursor ← cursor.skipBlanks
  let cursor ← if cursor.peek = some '#' then cursor.skipToBreak else pure cursor
  if !Peek.isBreakOrEnd cursor.peek then throw (cursor.halt .noLineEnd start)
  let cursor ← cursor.skipLineEnd
  let given : Nat :=
    if increment = 0 then 0 else if parent ≥ 0 then parent.toNat + increment else increment
  let (breaks, deepest, cursor) ←
    blockBreaks start given (cursor.bound + 1) 0 [] cursor
  let indent := if given = 0 then max (max deepest (parent + 1).toNat) 1 else given
  let scan ← blockLoop start literal indent (cursor.bound + 1) false
    { chars := [], lastBreak := [], laterBreaks := breaks, behind := cursor }
  let chars := scan.chars.reverse
    ++ (if chomping = .strip then [] else scan.lastBreak)
    ++ (if chomping = .keep then scan.laterBreaks else [])
  return (.scalar (Text.ofChars chars) (if literal then .literal else .folded), scan.behind)

/-! ## Anchors, tags and directives -/

/-- Scans an anchor or an alias at its indicator. -/
def scanAnchor (make : Text → TokenKind) (cursor : Cursor) : Scanned := do
  let (name, behind) ← cursor.skip.readWhile isWordChar
  let closed := match behind.peek with
    | none => true
    | some c => Peek.isBlankOrEnd (some c) || "?:,]\x7d%@`".toList.contains c
  if name.isEmpty || !closed then throw (behind.halt .emptyAnchor cursor.mark)
  return (make (Text.ofChars name), behind)

def isUriChar (c : Char) : Bool := isWordChar c || ";/?:@&=+$,.!~*'()[]%".toList.contains c

/-- How many bytes a character has whose encoding starts with this byte. -/
def leadWidth (octet : Nat) : Nat :=
  if octet < 0x80 then 1
  else if octet / 32 = 6 then 2
  else if octet / 16 = 14 then 3
  else if octet / 8 = 30 then 4
  else 0

/-- The byte of an escape by percent sign. -/
def escapedOctet? (cursor : Cursor) : Option Nat := do
  if cursor.peek ≠ some '%' then none
  else
    let high ← Peek.hex? (cursor.peekAt 1)
    let low ← Peek.hex? (cursor.peekAt 2)
    some (high * 16 + low)

/-- The further bytes of a character written with escapes. -/
def scanEscapedTail (start : Mark) : (count : Nat) → (bytes : Text) → Cursor →
    Except (Halt Cursor) (Text × Cursor)
  | 0, bytes, cursor => .ok (bytes, cursor)
  | count + 1, bytes, cursor => do
      let cursor ← cursor.need 3
      match escapedOctet? cursor with
      | none => throw (cursor.halt .noEscapedOctet start)
      | some octet =>
          if octet / 64 ≠ 2 then throw (cursor.halt .badEscapedTrailingOctet start)
          scanEscapedTail start count (bytes ++ [UInt8.ofNat octet]) (cursor.skipMany 3)

/-- A character written with escapes. -/
def scanEscapedChar (start : Mark) (cursor : Cursor) : Except (Halt Cursor) (Text × Cursor) := do
  let cursor ← cursor.need 3
  match escapedOctet? cursor with
  | none => throw (cursor.halt .noEscapedOctet start)
  | some octet =>
      match leadWidth octet with
      | 0 => throw (cursor.halt .badEscapedLeadingOctet start)
      | width + 1 => scanEscapedTail start width [UInt8.ofNat octet] (cursor.skipMany 3)

def scanUriChars (start : Mark) : (fuel : Nat) → (uri : Text) → Cursor →
    Except (Halt Cursor) (Text × Cursor)
  | 0, uri, cursor => .ok (uri, cursor)
  | fuel + 1, uri, cursor => do
      let cursor ← cursor.need 1
      match cursor.peek with
      | none => return (uri, cursor)
      | some c =>
          if c = '%' then
            let (bytes, behind) ← scanEscapedChar start cursor
            scanUriChars start fuel (uri ++ bytes) behind
          else if isUriChar c then
            scanUriChars start fuel (uri ++ String.utf8EncodeChar c) cursor.skip
          else return (uri, cursor)

/-- Scans a tag behind `head`, of which the leading mark is dropped. -/
def scanUri (start : Mark) (head : Text) (cursor : Cursor) :
    Except (Halt Cursor) (Text × Cursor) := do
  let (uri, behind) ← scanUriChars start (cursor.bound + 1) (head.drop 1) cursor
  if head.isEmpty && behind.mark.index = cursor.mark.index then
    throw (behind.halt .noTagUri start)
  return (uri, behind)

/-- Scans a tag handle: an exclamation mark, and a word with another one where it is named. -/
def scanHandle (inDirective : Bool) (start : Mark) (cursor : Cursor) :
    Except (Halt Cursor) (Text × Cursor) := do
  let cursor ← cursor.need 1
  if cursor.peek ≠ some '!' then throw (cursor.halt .noExclamationMark start)
  let (word, behind) ← cursor.skip.readWhile isWordChar
  if behind.peek = some '!' then
    return (Text.ofChars ('!' :: word ++ ['!']), behind.skip)
  if inDirective && !word.isEmpty then
    throw (behind.halt .noExclamationMark start)
  return (Text.ofChars ('!' :: word), behind)

/-- Scans a tag. -/
def scanTag (cursor : Cursor) : Scanned := do
  let start := cursor.mark
  let cursor ← cursor.need 2
  let (handle, suffix, behind) ←
    if cursor.peekAt 1 = some '<' then do
      let (uri, behind) ← scanUri start [] (cursor.skipMany 2)
      if behind.peek ≠ some '>' then throw (behind.halt .unclosedTag start)
      pure (([] : Text), uri, behind.skip)
    else do
      let (handle, behind) ← scanHandle false start cursor
      if handle.length > 1 && handle.getLast? = some 0x21 then
        let (suffix, behind) ← scanUri start [] behind
        pure (handle, suffix, behind)
      else
        let (suffix, behind) ← scanUri start handle behind
        if suffix.isEmpty then pure (([] : Text), ([0x21] : Text), behind)
        else pure (([0x21] : Text), suffix, behind)
  let behind ← behind.need 1
  if !Peek.isBlankOrEnd behind.peek then
    throw (behind.halt .noWhitespaceOrBreak start)
  return (.tag handle suffix, behind)

/-- The digits of a version number, of which there is room for a few. -/
def versionDigits (start : Mark) : (room : Nat) → (digits : List Char) → Cursor →
    Except (Halt Cursor) (List Char × Cursor)
  | room, digits, cursor => do
      let cursor ← cursor.need 1
      match Peek.digit? cursor.peek, room with
      | none, _ => return (digits, cursor)
      | some _, 0 => throw (cursor.halt .longVersionNumber start)
      | some _, room + 1 => versionDigits start room (digits ++ cursor.peek.toList) cursor.skip

/-- A version number of one or two digits. -/
def scanVersionNumber (start : Mark) (cursor : Cursor) : Except (Halt Cursor) (Nat × Cursor) := do
  let (digits, behind) ← versionDigits start 2 [] cursor
  match Text.digitsValue? (Text.ofChars digits) with
  | none => throw (behind.halt .noVersionNumber start)
  | some number => return (number, behind)

/-- Scans a directive with its line. -/
def scanDirective (cursor : Cursor) : Scanned := do
  let start := cursor.mark
  let (name, cursor) ← cursor.skip.readWhile isWordChar
  if name.isEmpty then throw (cursor.halt .directiveWithoutName start)
  if !Peek.isBlankOrEnd cursor.peek then throw (cursor.halt .badDirectiveName start)
  let (kind, cursor) ←
    if name = "YAML".toList then do
      let (major, cursor) ← scanVersionNumber start (← cursor.skipBlanks)
      if cursor.peek ≠ some '.' then throw (cursor.halt .badVersionNumber start)
      let (minor, cursor) ← scanVersionNumber start cursor.skip
      pure (TokenKind.versionDirective major minor, cursor)
    else if name = "TAG".toList then do
      let (handle, cursor) ← scanHandle true start (← cursor.skipBlanks)
      let cursor ← cursor.need 1
      if !Peek.isBlank cursor.peek then throw (cursor.halt .noWhitespace start)
      let (uri, cursor) ← scanUri start [] (← cursor.skipBlanks)
      let cursor ← cursor.need 1
      if !Peek.isBlankOrEnd cursor.peek then
        throw (cursor.halt .noWhitespaceOrBreak start)
      pure (TokenKind.tagDirective handle uri, cursor)
    else throw (cursor.halt .unknownDirective start)
  let cursor ← cursor.skipBlanks
  let cursor ← if cursor.peek = some '#' then cursor.skipToBreak else pure cursor
  if !Peek.isBreakOrEnd cursor.peek then throw (cursor.halt .noLineEnd start)
  return (kind, ← cursor.skipLineEnd)

end Shortfall.Yaml

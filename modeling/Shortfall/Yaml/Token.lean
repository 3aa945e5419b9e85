import Shortfall.Yaml.Source

/-!
# Tokens of a YAML document

A token is a piece of a document with the place where it starts and ends. Scalars are tokens
whose escapes and line folding are already undone.
-/

namespace Shortfall.Yaml

/-- A place in a document. Lines and columns are counted from zero. -/
structure Mark where
  index : Nat := 0
  line : Nat := 0
  column : Nat := 0
  deriving DecidableEq, Repr, Inhabited

inductive ScalarStyle where
  | plain
  | singleQuoted
  | doubleQuoted
  | literal
  | folded
  deriving DecidableEq, Repr

inductive TokenKind where
  | streamStart
  | streamEnd
  | versionDirective (major minor : Nat)
  | tagDirective (handle start : Text)
  | documentStart
  | documentEnd
  | blockSequenceStart
  | blockMappingStart
  | blockEnd
  | flowSequenceStart
  | flowSequenceEnd
  | flowMappingStart
  | flowMappingEnd
  | blockEntry
  | flowEntry
  | key
  | value
  | alias (name : Text)
  | anchor (name : Text)
  | tag (handle suffix : Text)
  | scalar (text : Text) (style : ScalarStyle)
  deriving DecidableEq, Repr

structure Token where
  kind : TokenKind
  start : Mark
  stop : Mark
  deriving Repr

/-! ## Character classes -/

/-- The end of the document belongs to no class. -/
abbrev Peek := Option Char

def Peek.isBlank (c? : Peek) : Bool := c? = some ' ' || c? = some '\t'

def isBreakChar (c : Char) : Bool :=
  c = '\r' || c = '\n' || c.toNat = 0x85 || c.toNat = 0x2028 || c.toNat = 0x2029

def Peek.isBreak (c? : Peek) : Bool := c?.any isBreakChar

def Peek.isBreakOrEnd (c? : Peek) : Bool := c?.all isBreakChar

def Peek.isBlankOrEnd (c? : Peek) : Bool := Peek.isBlank c? || Peek.isBreakOrEnd c?

def isWordChar (c : Char) : Bool :=
  ('0' ≤ c && c ≤ '9') || ('A' ≤ c && c ≤ 'Z') || ('a' ≤ c && c ≤ 'z') || c = '_' || c = '-'

def Peek.digit? (c? : Peek) : Option Nat :=
  match c? with
  | some c => if '0' ≤ c && c ≤ '9' then some (c.toNat - 0x30) else none
  | none => none

def Peek.hex? (c? : Peek) : Option Nat :=
  match c? with
  | some c => if c.toNat < 0x80 then Text.hexValue? (UInt8.ofNat c.toNat) else none
  | none => none

/-! ## Faults on the way -/

/-- A problem met while scanning from one place to another. The line of the first place is
reported, or that of the second when the first is on the first line. -/
def scanFault (problem : Problem) (start here : Mark) : Fault :=
  .malformed problem
    (if start.line ≠ 0 then some (start.line + 1)
     else if here.line ≠ 0 then some (here.line + 1)
     else none)

/-- A fault together with how far things had come: scanning may be taken up again from there. -/
structure Halt (σ : Type) where
  fault : Fault
  state : σ

/-! ## Cursors

Characters are loaded block by block, and only when scanning asks for them: it asks for as many as
it is about to look at. The end of the document can be asked for like a character. Behind a block
that cannot be read nothing can be had, and most of those who ask give up then. Those who merely
look for comments go on with what is there, and the refusal is remembered.
-/

/-- Where scanning stands: the characters ahead and the place of the first of them. -/
structure Cursor where
  ahead : List Char
  /-- At least as many as there are characters ahead; loops over them are bounded by it. -/
  bound : Nat
  mark : Mark := {}
  /-- The number of line breaks since the last character that is not a blank. -/
  breaks : Nat := 0
  /-- How many characters are loaded, ends of the document among them. -/
  loaded : Nat := 0
  /-- The sizes of the blocks that are not loaded yet. -/
  blocks : List Nat := []
  /-- What is wrong with the document behind its blocks. -/
  broken? : Option Problem := none
  /-- Whether a byte order mark stood here when characters were loaded last. -/
  loadedAtMark : Bool := false
  /-- Whether more characters were asked for than could be had. -/
  refused : Bool := false
  deriving Repr

namespace Cursor

def ofSource (source : Source) : Cursor where
  ahead := source.chars
  bound := source.chars.length
  blocks := source.blocks
  broken? := source.broken?

def peek (cursor : Cursor) : Peek := cursor.ahead.head?

def peekAt (cursor : Cursor) (offset : Nat) : Peek := cursor.ahead[offset]?

def atEnd (cursor : Cursor) : Bool := cursor.ahead.isEmpty

def byteOrderMark : Char := Char.ofNat 0xFEFF

/-- Loads blocks until a number of characters is there: how many are loaded then, and the blocks
that are left. -/
def loadBlocks (count : Nat) : (loaded : Nat) → (blocks : List Nat) → Nat × List Nat
  | loaded, [] => (loaded, [])
  | loaded, size :: rest =>
      if count ≤ loaded then (loaded, size :: rest) else loadBlocks count (loaded + size) rest

/-- Asks for a number of characters; says whether they can be had. Behind the last block the end of
the document is had once for each time that somebody asks. -/
def ask (count : Nat) (cursor : Cursor) : Bool × Cursor :=
  if count ≤ cursor.loaded then (true, cursor)
  else
    let (loaded, blocks) := loadBlocks count cursor.loaded cursor.blocks
    let cursor := { cursor with blocks, loadedAtMark := cursor.peek = some byteOrderMark }
    if count ≤ loaded then (true, { cursor with loaded })
    else if cursor.broken?.isNone then (true, { cursor with loaded := loaded + 1 })
    else (false, { cursor with loaded := cursor.ahead.length, refused := true })

/-- What went wrong, if more characters were asked for than could be had. -/
def refusal? (cursor : Cursor) : Option Fault :=
  if cursor.refused then cursor.broken?.map (.malformed · none) else none

/-- A stop at this place, for a problem with what starts at another. -/
def halt (cursor : Cursor) (problem : Problem) (start : Mark) : Halt Cursor :=
  ⟨scanFault problem start cursor.mark, cursor⟩

/-- Asks for a number of characters, and gives up when they cannot be had. -/
def need (count : Nat) (cursor : Cursor) : Except (Halt Cursor) Cursor :=
  match cursor.ask count, cursor.broken? with
  | (false, cursor), some problem => .error ⟨.malformed problem none, cursor⟩
  | (_, cursor), _ => .ok cursor

/-- Past one character that breaks no line, or past the end where one was loaded. -/
def skip (cursor : Cursor) : Cursor :=
  { cursor with
    ahead := cursor.ahead.tail
    mark := { cursor.mark with
      index := cursor.mark.index + 1, column := cursor.mark.column + 1 }
    breaks := if Peek.isBlank cursor.peek then cursor.breaks else 0
    loaded := cursor.loaded - 1 }

def skipMany : (count : Nat) → Cursor → Cursor
  | 0, cursor => cursor
  | count + 1, cursor => skipMany count cursor.skip

/-- Past a line break of some characters. -/
def breakLine (cursor : Cursor) (width : Nat) : Cursor :=
  { cursor with
    ahead := cursor.ahead.drop width
    mark := { index := cursor.mark.index + width, line := cursor.mark.line + 1, column := 0 }
    breaks := cursor.breaks + 1
    loaded := cursor.loaded - width }

/-- Past a line break, with the characters it contributes to a text: a line feed, or the Unicode
separators as they are. -/
def takeLine (cursor : Cursor) : List Char × Cursor :=
  match cursor.ahead with
  | '\r' :: '\n' :: _ => (['\n'], cursor.breakLine 2)
  | c :: _ =>
      if isBreakChar c then
        (if c.toNat = 0x2028 || c.toNat = 0x2029 then [c] else ['\n'], cursor.breakLine 1)
      else ([], cursor)
  | [] => ([], cursor)

def skipLine (cursor : Cursor) : Cursor := cursor.takeLine.2

/-- The characters of a class that breaks no line, in reverse, and the place behind them. -/
def readRun (p : Char → Bool) : (fuel : Nat) → (chars : List Char) → Cursor →
    Except (Halt Cursor) (List Char × Cursor)
  | 0, chars, cursor => .ok (chars, cursor)
  | fuel + 1, chars, cursor => do
      let cursor ← cursor.need 1
      match cursor.peek with
      | some c => if p c then readRun p fuel (c :: chars) cursor.skip else return (chars, cursor)
      | none => return (chars, cursor)

/-- The characters of a class that breaks no line, and the place behind them. -/
def readWhile (p : Char → Bool) (cursor : Cursor) : Except (Halt Cursor) (List Char × Cursor) := do
  let (chars, behind) ← readRun p (cursor.bound + 1) [] cursor
  return (chars.reverse, behind)

/-- Past all characters of a class that breaks no line. -/
def skipWhile (p : Char → Bool) (cursor : Cursor) : Except (Halt Cursor) Cursor := do
  let (_, behind) ← readRun p (cursor.bound + 1) [] cursor
  return behind

def skipBlanks (cursor : Cursor) : Except (Halt Cursor) Cursor :=
  cursor.skipWhile fun c => Peek.isBlank (some c)

/-- To the end of the line. -/
def skipToBreak (cursor : Cursor) : Except (Halt Cursor) Cursor :=
  cursor.skipWhile fun c => !isBreakChar c

/-- Past the end of the line, if it has one. -/
def skipLineEnd (cursor : Cursor) : Except (Halt Cursor) Cursor := do
  if Peek.isBreak cursor.peek then return (← cursor.need 2).skipLine
  return cursor

/-- Whether a document indicator stands here: three equal signs at the start of a line. -/
def atIndicator (cursor : Cursor) (sign : Char) : Bool :=
  cursor.mark.column = 0 && cursor.ahead.take 3 = [sign, sign, sign]
    && Peek.isBlankOrEnd (cursor.peekAt 3)

def atDocumentIndicator (cursor : Cursor) : Bool :=
  cursor.atIndicator '-' || cursor.atIndicator '.'

end Cursor

end Shortfall.Yaml

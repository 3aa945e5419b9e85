import Shortfall.Yaml.Token.Comment
import Shortfall.Yaml.Token.Text
import Std.Data.TreeMap

/-!
# The token queue

Tokens are scanned on demand and handed out from a queue. Block structure is a matter of
indentation: a deeper column opens a collection and a shallower one closes as many as it leaves.

A mapping key need not be announced. A token that could be one is remembered as a *simple key*
together with its place in the queue; when the colon follows on the same line and close enough,
the key token is put in front of it. Whoever takes tokens from the queue therefore always sees
two tokens further than the one taken, and further still while that one may turn out to be a key.
A token that went out of reach goes on waiting for its level, and so for a key that comes later.

When a token cannot be scanned, the queue is left as it was when the problem was met. Scanning can
be taken up again from there.
-/

namespace Shortfall.Yaml

/-- A token that may turn out to be a mapping key. -/
structure SimpleKey where
  possible : Bool := false
  /-- Whether the token stands where only a key can stand. -/
  required : Bool := false
  number : Nat := 0
  mark : Mark := {}
  deriving Repr

structure Queue where
  cursor : Cursor
  started : Bool := false
  /-- The tokens that were scanned and not taken yet. -/
  tokens : List Token := []
  /-- The number of tokens taken. -/
  taken : Nat := 0
  indent : Int := -1
  outerIndents : List Int := []
  /-- The number of outer indentations. -/
  depth : Nat := 0
  /-- The possible key of each flow level, the innermost last. -/
  keys : Array SimpleKey := #[]
  /-- The numbers of tokens that wait to be recognised as keys, each with its flow level. -/
  waiting : Std.TreeMap Nat Nat := {}
  flowLevel : Nat := 0
  keyAllowed : Bool := false
  /-- The heads of tokens that were not looked at yet. -/
  heads : List HeadComment := []
  /-- The comments in front of the token that is looked at. -/
  head : List Char := []

namespace Queue

def ofText (text : Text) : Queue where
  cursor := Cursor.ofSource (Source.ofText text)

abbrev Step := Except (Halt Queue) Queue

def halt (q : Queue) (problem : Problem) (start : Mark) : Halt Queue :=
  ⟨scanFault problem start q.cursor.mark, q⟩

/-- Scans something at the place where the queue stands. -/
def scan {α : Type} (q : Queue) (scanner : Cursor → Except (Halt Cursor) (α × Cursor)) :
    Except (Halt Queue) (α × Queue) :=
  match scanner q.cursor with
  | .ok (value, cursor) => .ok (value, { q with cursor })
  | .error halt => .error ⟨halt.fault, { q with cursor := halt.state }⟩

/-- Moves on from the place where the queue stands. -/
def move (q : Queue) (mover : Cursor → Except (Halt Cursor) Cursor) : Step :=
  match mover q.cursor with
  | .ok cursor => .ok { q with cursor }
  | .error halt => .error ⟨halt.fault, { q with cursor := halt.state }⟩

def need (q : Queue) (count : Nat) : Step := q.move (Cursor.need count)

/-- The number that the next token will have. -/
def nextNumber (q : Queue) : Nat := q.taken + q.tokens.length

def push (q : Queue) (kind : TokenKind) (start stop : Mark) : Queue :=
  { q with tokens := q.tokens ++ [⟨kind, start, stop⟩] }

/-- Puts a token at the place of the given number, or at the end if that place was taken. -/
def insertAt (q : Queue) (number : Nat) (token : Token) : Queue :=
  if number < q.taken then { q with tokens := q.tokens ++ [token] }
  else
    { q with
      tokens := q.tokens.take (number - q.taken) ++ token :: q.tokens.drop (number - q.taken) }

/-! ## Simple keys -/

def keyHalt (q : Queue) (key : SimpleKey) : Halt Queue :=
  q.halt .simpleKeyWithoutColon key.mark

/-- A key must be followed by its colon on the same line and within 1024 characters. -/
def outOfReach (q : Queue) (key : SimpleKey) : Bool :=
  key.mark.line < q.cursor.mark.line || key.mark.index + 1024 < q.cursor.mark.index

/-- The key of the current level. -/
def key? (q : Queue) : Option SimpleKey := q.keys.back?

/-- Replaces the key of the current level. -/
def setKey (q : Queue) (key : SimpleKey) : Queue := { q with keys := q.keys.pop.push key }

/-- Gives up the key of the current level, and waiting for it. -/
def forgetKey (q : Queue) (key : SimpleKey) : Queue :=
  { q.setKey { key with possible := false } with waiting := q.waiting.erase key.number }

/-- Gives up the possible key of the current level. -/
def dropKey (q : Queue) : Step :=
  match q.key? with
  | none => .ok q
  | some key =>
      if key.possible && key.required then .error (q.keyHalt key)
      else if key.possible then .ok (q.forgetKey key)
      else .ok q

/-- Remembers that the next token may be a key. -/
def saveKey (q : Queue) : Step := do
  if !q.keyAllowed then return q
  let q ← q.dropKey
  let key : SimpleKey := {
    possible := true
    required := q.flowLevel = 0 && q.indent = q.cursor.mark.column
    number := q.nextNumber
    mark := q.cursor.mark }
  return { q.setKey key with waiting := q.waiting.insert key.number q.flowLevel }

/-- Whether the key of a level can still be one; a key out of reach is none any more. -/
def checkKey (q : Queue) (level : Nat) : Except (Halt Queue) (Bool × Queue) :=
  match q.keys[level]? with
  | none => .ok (false, q)
  | some key =>
      if !key.possible then .ok (false, q)
      else if q.outOfReach key then
        if key.required then .error (q.keyHalt key)
        else
          let keys := q.keys.modify level fun key => { key with possible := false }
          .ok (false, { q with keys })
      else .ok (true, q)

/-- Whether the first token of the queue still waits to be recognised as a key. -/
def awaitsHead (q : Queue) : Except (Halt Queue) (Bool × Queue) :=
  match q.waiting[q.taken]? with
  | none => .ok (false, q)
  | some level => q.checkKey level

/-! ## Indentation -/

/-- How deep collections may be nested, in blocks and in brackets. -/
def maxDepth : Nat := 10000

/-- Opens a block collection at a deeper column; its token goes to the place of `number?`, or to
the end. -/
def rollIndent (q : Queue) (column : Nat) (number? : Option Nat) (kind : TokenKind)
    (mark : Mark) : Step :=
  if q.flowLevel > 0 || q.indent ≥ column then .ok q
  else
    let deeper :=
      { q with
        outerIndents := q.indent :: q.outerIndents
        indent := column
        depth := q.depth + 1 }
    if deeper.depth > maxDepth then
      .error (deeper.halt .tooDeep (q.key?.getD {}).mark)
    else
      match number? with
      | some number => .ok (deeper.insertAt number ⟨kind, mark, mark⟩)
      | none => .ok (deeper.push kind mark mark)

def closeBlocks (column : Int) (mark : Mark) : (levels : List Int) → Queue → Queue
  | [], q => q
  | outer :: rest, q =>
      if q.indent > column then
        closeBlocks column mark rest
          { q.push .blockEnd mark mark with
            indent := outer, outerIndents := rest, depth := q.depth - 1 }
      else q

/-- Closes the block collections that are deeper than a column. -/
def unrollIndent (q : Queue) (column : Int) (mark : Mark) : Queue :=
  if q.flowLevel > 0 then q else closeBlocks column mark q.outerIndents q

/-! ## Between tokens -/

/-- The token in front of a comment. A comma counts as part of the token before it. -/
def tokenInFront? (q : Queue) : Option TokenKind :=
  match q.tokens.reverse with
  | [] => none
  | [token] => some token.kind
  | token :: before :: _ => some (if token.kind = .flowEntry then before.kind else token.kind)

/-- Where comments here stand, when the search for the next token began at a column. -/
def commentSite (q : Queue) (column : Nat) : CommentSite where
  inFlow := q.flowLevel > 0
  indent := q.indent.toNat
  behindColon := q.tokenInFront? = some .value
  footLine? :=
    if column = 0 then none
    else
      let mark := q.cursor.mark
      let below := if q.cursor.breaks = 0 && mark.column > 1 then 1 else 0
      some (mark.line - q.cursor.breaks + 1 + below)

/-- Past the comments here, if there are any. -/
def skipComments (q : Queue) (column : Nat) : Step := do
  if q.cursor.peek ≠ some '#' then return q
  let (heads, q) ← q.scan (passComments (q.commentSite column))
  return { q with heads := q.heads ++ heads }

/-- Past blanks, comments and line breaks, from a place in some column on. A tab may stand in front
of a token only where no simple key is possible. As long as the characters at hand were loaded at a
byte order mark, every line loses its first character. -/
def skipToToken (column : Nat) : (fuel : Nat) → Queue → Step
  | 0, q => .ok q
  | fuel + 1, q => do
      let q ← q.need 1
      let cursor := q.cursor
      let q :=
        if cursor.mark.column = 0 && cursor.loadedAtMark then { q with cursor := cursor.skip }
        else q
      let tabs := q.flowLevel > 0 || !q.keyAllowed
      let q ← q.move (Cursor.skipWhile fun c => c = ' ' || (tabs && c = '\t'))
      let q ← q.skipComments column
      if Peek.isBreak q.cursor.peek then
        let q ← q.move Cursor.skipLineEnd
        skipToToken column fuel { q with keyAllowed := q.keyAllowed || q.flowLevel = 0 }
      else return q

/-! ## Fetching tokens -/

/-- A token of one or more fixed characters. -/
def fetchMarker (q : Queue) (kind : TokenKind) (width : Nat) : Queue :=
  let behind := q.cursor.skipMany width
  { q.push kind q.cursor.mark behind.mark with cursor := behind }

def fetchStreamEnd (q : Queue) : Step := do
  let mark := q.cursor.mark
  let mark : Mark :=
    if mark.column ≠ 0 then { mark with line := mark.line + 1, column := 0 } else mark
  let q := { q with cursor := { q.cursor with mark } }
  let q ← (q.unrollIndent (-1) mark).dropKey
  return { q.push .streamEnd mark mark with keyAllowed := false }

/-- A token that a scanner reads. -/
def fetchScanned (q : Queue) (scanner : Cursor → Scanned) : Step := do
  let start := q.cursor.mark
  let (kind, q) ← q.scan scanner
  return q.push kind start q.cursor.mark

def fetchDirective (q : Queue) : Step := do
  let q ← (q.unrollIndent (-1) q.cursor.mark).dropKey
  { q with keyAllowed := false }.fetchScanned scanDirective

def fetchDocumentIndicator (q : Queue) (kind : TokenKind) : Step := do
  let q ← (q.unrollIndent (-1) q.cursor.mark).dropKey
  return { q with keyAllowed := false }.fetchMarker kind 3

def fetchFlowStart (q : Queue) (kind : TokenKind) : Step := do
  let q ← q.saveKey
  let level : SimpleKey := { number := q.nextNumber, mark := q.cursor.mark }
  let q := { q with keys := q.keys.push level, flowLevel := q.flowLevel + 1 }
  if q.flowLevel > maxDepth then throw (q.halt .tooDeep q.cursor.mark)
  return { q with keyAllowed := true }.fetchMarker kind 1

/-- Leaves a flow level, and the token that its key stands for waits no longer. A level that never
had a key stands for the token that opened it. -/
def leaveFlow (q : Queue) : Queue :=
  match q.flowLevel, q.key? with
  | level + 1, some key =>
      { q with flowLevel := level, keys := q.keys.pop, waiting := q.waiting.erase key.number }
  | _, _ => q

def fetchFlowEnd (q : Queue) (kind : TokenKind) : Step := do
  let q ← q.dropKey
  return { q.leaveFlow with keyAllowed := false }.fetchMarker kind 1

def fetchFlowEntry (q : Queue) : Step := do
  let q ← q.dropKey
  return { q with keyAllowed := true }.fetchMarker .flowEntry 1

def fetchBlockEntry (q : Queue) : Step := do
  let mark := q.cursor.mark
  if q.flowLevel = 0 && !q.keyAllowed then throw (q.halt .misplacedBlockEntry mark)
  let q ← (← q.rollIndent mark.column none .blockSequenceStart mark).dropKey
  return { q with keyAllowed := true }.fetchMarker .blockEntry 1

def fetchKey (q : Queue) : Step := do
  let mark := q.cursor.mark
  if q.flowLevel = 0 && !q.keyAllowed then throw (q.halt .misplacedKey mark)
  let q ← (← q.rollIndent mark.column none .blockMappingStart mark).dropKey
  return { q with keyAllowed := q.flowLevel = 0 }.fetchMarker .key 1

/-- A colon turns the possible key of its level into a key. Without one it belongs to a key that
was announced. -/
def fetchValue (q : Queue) : Step := do
  let mark := q.cursor.mark
  let (found, q) ← q.checkKey q.flowLevel
  match found, q.key? with
  | true, some key =>
      let q := q.insertAt key.number ⟨.key, key.mark, key.mark⟩
      let q ← q.rollIndent key.mark.column (some key.number) .blockMappingStart key.mark
      return { q.forgetKey key with keyAllowed := false }.fetchMarker .value 1
  | _, _ =>
      if q.flowLevel = 0 && !q.keyAllowed then throw (q.halt .misplacedValue mark)
      let q ← q.rollIndent mark.column none .blockMappingStart mark
      return { q with keyAllowed := q.flowLevel = 0 }.fetchMarker .value 1

/-- A token that may be a simple key. -/
def fetchText (q : Queue) (scanner : Cursor → Scanned) : Step := do
  let q ← q.saveKey
  { q with keyAllowed := false }.fetchScanned scanner

def fetchBlockScalar (q : Queue) (literal : Bool) : Step := do
  let q ← q.dropKey
  { q with keyAllowed := true }.fetchScanned (scanBlock q.indent literal)

def fetchPlain (q : Queue) : Step := do
  let q ← q.saveKey
  let q := { q with keyAllowed := false }
  let start := q.cursor.mark
  let (plain, q) ← q.scan (scanPlain (q.indent + 1) (q.flowLevel > 0))
  let kind := TokenKind.scalar (Text.ofChars plain.chars.reverse) .plain
  return { q.push kind start plain.stop with keyAllowed := plain.broken }

/-- Characters with which no plain scalar starts. -/
def isIndicator (c : Char) : Bool := "-?:,[]\x7b\x7d#&*!|>'\"%@`".toList.contains c

def startsPlain (q : Queue) (c : Char) : Bool :=
  let next := q.cursor.peekAt 1
  !(Peek.isBlankOrEnd (some c) || isIndicator c)
    || (c = '-' && !Peek.isBlank next)
    || (q.flowLevel = 0 && (c = '?' || c = ':') && !Peek.isBlankOrEnd next)

/-- The token that starts with a given character. -/
def fetchAt (q : Queue) (c : Char) : Step :=
  let next := q.cursor.peekAt 1
  let inFlow := q.flowLevel > 0
  if c = '[' then q.fetchFlowStart .flowSequenceStart
  else if c = '\x7b' then q.fetchFlowStart .flowMappingStart
  else if c = ']' then q.fetchFlowEnd .flowSequenceEnd
  else if c = '\x7d' then q.fetchFlowEnd .flowMappingEnd
  else if c = ',' then q.fetchFlowEntry
  else if c = '-' && Peek.isBlankOrEnd next then q.fetchBlockEntry
  else if c = '?' && (inFlow || Peek.isBlankOrEnd next) then q.fetchKey
  else if c = ':' && (inFlow || Peek.isBlankOrEnd next) then q.fetchValue
  else if c = '*' then q.fetchText (scanAnchor .alias)
  else if c = '&' then q.fetchText (scanAnchor .anchor)
  else if c = '!' then q.fetchText scanTag
  else if c = '|' && !inFlow then q.fetchBlockScalar true
  else if c = '>' && !inFlow then q.fetchBlockScalar false
  else if c = '\'' then q.fetchText (scanQuoted '\'')
  else if c = '"' then q.fetchText (scanQuoted '"')
  else if q.startsPlain c then q.fetchPlain
  else .error (q.halt .noToken q.cursor.mark)

def endsWithBlockEntry (q : Queue) : Bool :=
  match q.tokens.getLast? with
  | some token => token.kind = .blockEntry
  | none => false

/-- Scans the next token. -/
def fetch (q : Queue) : Step := do
  let q ← q.need 1
  if !q.started then
    let q := { q with started := true, keys := #[{}], keyAllowed := true }
    return q.push .streamStart q.cursor.mark q.cursor.mark
  let before := q.cursor.mark
  let q ← skipToToken before.column (q.cursor.bound + 1) q
  let q ← (q.unrollIndent q.cursor.mark.column before).need 4
  match q.cursor.peek with
  | none => q.fetchStreamEnd
  | some c =>
      if q.cursor.mark.column = 0 && c = '%' then q.fetchDirective
      else if q.cursor.atIndicator '-' then q.fetchDocumentIndicator .documentStart
      else if q.cursor.atIndicator '.' then q.fetchDocumentIndicator .documentEnd
      else
        let q ← q.fetchAt c
        if q.endsWithBlockEntry then return q else q.move passLineComment

def fill : (fuel : Nat) → Queue → Step
  | 0, q => .ok q
  | fuel + 1, q => do
      if q.tokens.length > 2 then
        let (awaited, q) ← q.awaitsHead
        if !awaited then return q
        (← q.fetch).fill fuel
      else (← q.fetch).fill fuel

/-- Gathers the heads in front of a token. The end of a block has none. -/
def takeHeads (q : Queue) (token : Token) : Queue :=
  if token.kind = .blockEnd then q
  else
    let isRipe := fun (head : HeadComment) => head.index ≤ token.start.index
    { q with
      heads := q.heads.dropWhile isRipe
      head := (q.heads.takeWhile isRipe).foldl (fun text head => HeadComment.join text head.text)
        q.head }

/-- The first token, once it is settled. -/
def peek (q : Queue) : Except (Halt Queue) (Token × Queue) := do
  let q ← q.fill (q.cursor.bound + 8)
  match q.tokens with
  | token :: _ => return (token, q.takeHeads token)
  | [] => return (⟨.streamEnd, q.cursor.mark, q.cursor.mark⟩, q)

/-- Takes the first token. -/
def skip (q : Queue) : Queue := { q with tokens := q.tokens.drop 1, taken := q.taken + 1 }

end Queue

end Shortfall.Yaml

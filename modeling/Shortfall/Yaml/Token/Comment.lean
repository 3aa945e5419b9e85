import Shortfall.Yaml.Token

/-!
# Comments between tokens

Comments are passed over in one go as long as only blanks and line breaks stand between them. What
they say is of no account, but for one thing: the part of them that belongs to the token that
follows, its *head*, is kept until that token is taken.

A comment belongs to what is in front of it, and is no head, when it starts on the line behind a
token or is indented less than the block it stands in, and an empty line, the end of the document
or a closing bracket comes after it. So does a comment from which the next one is set off by less
indentation.
-/

namespace Shortfall.Yaml

/-- A comment that belongs to the token that follows it. -/
structure HeadComment where
  /-- Where it starts. -/
  index : Nat
  text : List Char
  deriving Repr

namespace HeadComment

/-- Two comments, one below the other. -/
def join (above under : List Char) : List Char :=
  if above.isEmpty then under else above ++ '\n' :: under

/-- Whether an empty line stands at the front of the rest of a comment, behind a line break. -/
def isGap : List Char → Bool
  | [] => true
  | c :: _ => c = '\n'

/-- The part of a comment behind its last empty line, or all of it where there is none. -/
def afterGaps (text : List Char) : List Char :=
  go text text
where
  go (last : List Char) : List Char → List Char
    | [] => last
    | c :: rest => if c = '\n' && isGap rest then go (rest.drop 1) rest else go last rest

end HeadComment

/-- How far comments are looked for. -/
def commentReach : Nat := 512

/-- Whether a line break is written as one byte. -/
def isPlainBreak (c : Char) : Bool := c = '\r' || c = '\n'

/-- Passes the blanks and breaks in front of a comment that starts at an index, and reads the
comment, in reverse and behind what is given. -/
def readComment (index : Nat) : (fuel : Nat) → (text : List Char) → Cursor →
    Except (Halt Cursor) (List Char × Cursor)
  | 0, text, cursor => .ok (text, cursor)
  | fuel + 1, text, cursor => do
      let cursor ← cursor.need 1
      let reached := cursor.mark.index ≥ index
      if Peek.isBreakOrEnd cursor.peek then
        if reached then return (text, cursor)
        readComment index fuel text (← cursor.need 2).skipLine
      else
        readComment index fuel (if reached then cursor.peek.toList ++ text else text) cursor.skip

/-- Where a run of comments stands. -/
structure CommentSite where
  inFlow : Bool
  /-- The indentation of the block. -/
  indent : Nat
  behindColon : Bool
  /-- The line below the token in front, if there is one on the line where the search for the next
  token began. -/
  footLine? : Option Nat

/-- A run of comments, as far as it was read. -/
structure CommentRun where
  cursor : Cursor
  /-- The head so far, in reverse. -/
  text : List Char := []
  /-- Where the head starts; columns count from one here. -/
  start : Mark := {}
  line : Nat
  column : Nat
  /-- Whether an empty line would be the first one. -/
  firstEmpty : Bool
  /-- Whether the line in front is empty. -/
  recentEmpty : Bool := false

namespace CommentRun

/-- Whether the comments so far belong to what is in front of them, once an empty line follows. -/
def isFoot (run : CommentRun) (site : CommentSite) : Bool :=
  run.firstEmpty
    && ((site.footLine? = some run.start.line && !site.behindColon)
      || run.start.column ≤ site.indent)

/-- Behind the end of a line that has no comment. -/
def endLine (run : CommentRun) (site : CommentSite) (closing atEnd : Bool) : CommentRun :=
  if !closing && run.recentEmpty then run
  else if closing || run.isFoot site then { run with text := [] }
  else if run.text.isEmpty || atEnd then run
  else { run with text := '\n' :: run.text }

/-- At the first character of a line: comments that were indented otherwise are left behind where
this one leaves the block. -/
def enterLine (run : CommentRun) (site : CommentSite) : CommentRun :=
  if run.column ≤ site.indent && run.column ≠ run.start.column then { run with text := [] } else run

/-- Looks for the next comment from an offset on, byte by byte; `inside` says that the byte there
is not the first one of its character. The outcome is the offset of the comment, if there is one
within reach. -/
def lookAhead (site : CommentSite) : (reach offset : Nat) → (inside : Bool) → CommentRun →
    Option Nat × CommentRun
  | 0, _, _, run => (none, run)
  | reach + 1, offset, inside, run =>
      match run.cursor.ask (offset + 1) with
      | (false, cursor) => (none, { run with cursor })
      | (true, cursor) =>
          let run := { run with cursor, column := run.column + 1 }
          if inside then (none, run.enterLine site)
          else
            match cursor.peekAt offset with
            | none => (none, run.endLine site false true)
            | some c =>
                if Peek.isBlank (some c) then lookAhead site reach (offset + 1) false run
                else if site.inFlow && (c = ']' || c = '\x7d') then
                  (none, run.endLine site true false)
                else if isBreakChar c then
                  lookAhead site reach (offset + 1) (!isPlainBreak c)
                    { run.endLine site false false with
                      firstEmpty := false, recentEmpty := true, column := 0, line := run.line + 1 }
                else if c = '#' then (some offset, run.enterLine site)
                else (none, run.enterLine site)

/-- Reads the comment at an offset and all those that follow it. -/
def readAll (site : CommentSite) : (fuel offset : Nat) → CommentRun →
    Except (Halt Cursor) CommentRun
  | 0, _, run => .ok run
  | fuel + 1, offset, run => do
      let index := run.cursor.mark.index + offset
      let (text, start) :=
        if run.text.isEmpty then ([], { index, line := run.line, column := run.column : Mark })
        else ('\n' :: run.text, run.start)
      let (text, cursor) ← readComment index (run.cursor.bound + 1) text run.cursor
      let inside := cursor.peek.any fun c => !isPlainBreak c
      let run :=
        { run with
          cursor, text, start, line := cursor.mark.line, column := 0, recentEmpty := false }
      match run.lookAhead site (commentReach - 1) 1 inside with
      | (some offset, run) => readAll site fuel offset run
      | (none, run) => return run

end CommentRun

/-- Passes the comment here and those that follow it, and returns the head of the next token, if
there is one. -/
def passComments (site : CommentSite) (cursor : Cursor) :
    Except (Halt Cursor) (List HeadComment × Cursor) := do
  let run ← CommentRun.readAll site (cursor.bound + 1) 0
    { cursor, line := cursor.mark.line, column := cursor.mark.column + 1
      firstEmpty := cursor.breaks ≤ 1 }
  let heads : List HeadComment :=
    if run.text.isEmpty then [] else [⟨run.start.index, run.text.reverse⟩]
  return (heads, run.cursor)

/-- How far ahead a comment is that follows on the same line, if one does within reach. -/
def commentBehind : (reach : Nat) → (offset : Nat) → Cursor → Option Nat × Cursor
  | 0, _, cursor => (none, cursor)
  | reach + 1, offset, cursor =>
      match cursor.ask (offset + 1) with
      | (false, cursor) => (none, cursor)
      | (true, cursor) =>
          if Peek.isBlank (cursor.peekAt offset) then commentBehind reach (offset + 1) cursor
          else (if cursor.peekAt offset = some '#' then some offset else none, cursor)

/-- Passes a comment on the line of the token in front. -/
def passLineComment (cursor : Cursor) : Except (Halt Cursor) Cursor :=
  if cursor.breaks ≠ 0 then .ok cursor
  else
    match commentBehind commentReach 0 cursor with
    | (none, cursor) => .ok cursor
    | (some offset, cursor) => do
        let (_, cursor) ← readComment (cursor.mark.index + offset) (cursor.bound + 1) [] cursor
        return cursor

end Shortfall.Yaml

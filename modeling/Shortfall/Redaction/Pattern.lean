import Shortfall.Text.Case

/-!
# Credential patterns

A small pattern language, just large enough to describe how credentials are written: a pattern
is a sequence of parts, and a part is either one of several words or a run of characters of one
class. A pattern takes the first word that lets the rest match and the longest run that does, in
this order of preference, and it is sought from left to right.

Patterns run on the pieces of a text. A stray byte counts as one character, of no class that
lists its members.

`Part.rests` lists what may remain behind a part, the preferred choice first, so matching a
pattern is a search through these lists (`Pattern.rest?`) and needs no state.
-/

namespace Shortfall.Redaction

open Text (Piece)

inductive Part where
  /-- One of these words, the earlier ones preferred, in any case if `anyCase`. -/
  | word (anyCase : Bool) (choices : List (List Char))
  /-- At least `least` and at most `most?` characters of a class, as many as possible. -/
  | run (inClass : Char → Bool) (least : Nat) (most? : Option Nat)

abbrev Pattern := List Part

/-- What remains behind a word at the front of the text. -/
def wordRest? (anyCase : Bool) : List Char → List Piece → Option (List Piece)
  | [], text => some text
  | _ :: _, [] => none
  | c :: word, piece :: text =>
      if piece.shown = c || (anyCase && Text.foldKey piece.shown = Text.foldKey c) then
        wordRest? anyCase word text
      else none

/-- What may remain behind a run, from the longest run to the shortest. `found` holds the shorter
runs met on the way. -/
def runRests (inClass : Char → Bool) (found : List (List Piece)) :
    (least : Nat) → (most? : Option Nat) → List Piece → List (List Piece)
  | least, most?, text =>
      let found := if least = 0 then text :: found else found
      match text with
      | [] => found
      | piece :: rest =>
          if most? ≠ some 0 && inClass piece.shown then
            runRests inClass found (least - 1) (most?.map (· - 1)) rest
          else found

def Part.rests : Part → List Piece → List (List Piece)
  | word anyCase choices, text => choices.filterMap fun w => wordRest? anyCase w text
  | run inClass least most?, text => runRests inClass [] least most? text

/-- What remains behind the preferred match of the pattern at the front of the text. -/
def Pattern.rest? : Pattern → List Piece → Option (List Piece)
  | [], text => some text
  | part :: parts, text => (part.rests text).findSome? (Pattern.rest? parts)

/-- How many pieces the pattern takes at the front of the text. -/
def Pattern.matchLength? (pattern : Pattern) (text : List Piece) : Option Nat :=
  (pattern.rest? text).map fun rest => text.length - rest.length

/-- Whether the pattern occurs in the text. -/
def Pattern.occurs (pattern : Pattern) : List Piece → Bool
  | [] => (pattern.rest? []).isSome
  | piece :: rest => (pattern.rest? (piece :: rest)).isSome || occurs pattern rest

/-- Drops `pending` pieces and then puts `mark` in the place of each match. -/
def Pattern.replaceFrom (pattern : Pattern) (mark : Text) : (pending : Nat) → List Piece → Text
  | _, [] => []
  | pending + 1, _ :: rest => replaceFrom pattern mark pending rest
  | 0, piece :: rest =>
      match pattern.matchLength? (piece :: rest) with
      | some (taken + 1) => mark ++ replaceFrom pattern mark taken rest
      | _ => piece.bytes ++ replaceFrom pattern mark 0 rest

/-- The text with `mark` in the place of each match. -/
def Pattern.replace (pattern : Pattern) (mark : Text) (text : Text) : Text :=
  pattern.replaceFrom mark 0 text.pieces

end Shortfall.Redaction

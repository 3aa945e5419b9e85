import Shortfall.Taint.Literal
import Shortfall.Taint.State

/-!
# Reading expressions

The level of an expression is the join of the levels of the variables it names. An expression is
plain text: names are recognised, everything else is skipped, and a text that makes no sense
names nothing and is untainted.

A name is a dotted path. It stands for the longest leading part of the path that is tracked, so
`user.profile.name` falls back to `user.profile` and then to `user`. A name before an opening
parenthesis is a call: the name itself may still be a method of a tracked receiver, and the
arguments are read as an expression of their own, whatever the called method is. Only a statement
can clear taint, never a call inside an expression.
-/

namespace Shortfall.Taint

/-! ## Names in a text -/

def isNameStart (byte : UInt8) : Bool :=
  byte = 0x5F || byte = 0x24 || (0x61 ≤ byte && byte ≤ 0x7A) || (0x41 ≤ byte && byte ≤ 0x5A)

def isNamePart (byte : UInt8) : Bool := isNameStart byte || Text.isDigit byte

def startsName : Text → Bool
  | [] => false
  | byte :: _ => isNameStart byte

/-- Splits a dotted name off the front; a dot belongs to it only when a name follows. -/
def splitName : Text → Text × Text
  | [] => ([], [])
  | byte :: rest =>
      if isNamePart byte || (byte = 0x2E && startsName rest) then
        (byte :: (splitName rest).1, (splitName rest).2)
      else ([], byte :: rest)

theorem splitName_append (text : Text) : (splitName text).1 ++ (splitName text).2 = text := by
  induction text with
  | nil => rfl
  | cons byte rest ih => simp only [splitName]; split <;> simp [ih]

theorem length_splitName_rest {byte : UInt8} (h : isNamePart byte) (rest : Text) :
    (splitName (byte :: rest)).2.length ≤ rest.length := by
  have := congrArg List.length (splitName_append rest)
  simp [splitName, h] at this ⊢
  omega

/-! ## Parentheses -/

def opening : UInt8 := 0x28

def closing : UInt8 := 0x29

/-- How far the parenthesis is that closes the last of `depth` open ones, or the length of the
text when there is none. -/
def closingOffset : (depth : Nat) → Text → Nat
  | _, [] => 0
  | depth, byte :: rest =>
      if byte = opening then closingOffset (depth + 1) rest + 1
      else if byte = closing then
        if depth = 1 then 0 else closingOffset (depth - 1) rest + 1
      else closingOffset depth rest + 1

/-- The position of the parenthesis that closes the one at `start`, or the length of the text
when it stays open. -/
def matchParen (text : Text) (start : Nat) : Nat := start + closingOffset 0 (text.drop start)

theorem closingOffset_le (depth : Nat) (text : Text) : closingOffset depth text ≤ text.length := by
  induction text generalizing depth with
  | nil => simp [closingOffset]
  | cons byte rest ih => grind [closingOffset]

def isSpaceOrTab (byte : UInt8) : Bool := byte = 0x20 || byte = 0x09

/-- The arguments of a call and what follows it, when an opening parenthesis stands at the front
of the text or behind spaces and tabs. A call that is never closed takes the rest of the text. -/
def splitCall? (text : Text) : Option (Text × Text) :=
  match text.dropWhile isSpaceOrTab with
  | [] => none
  | first :: rest =>
      if first = opening then
        let stop := matchParen (first :: rest) 0
        some (((first :: rest).take stop).drop 1, (first :: rest).drop (stop + 1))
      else none

theorem length_splitCall? {text arguments behind : Text}
    (h : splitCall? text = some (arguments, behind)) :
    arguments.length < text.length ∧ behind.length < text.length := by
  have hdrop := (List.dropWhile_sublist isSpaceOrTab (l := text)).length_le
  simp only [splitCall?] at h
  split at h
  · cases h
  · next first rest heq =>
      rw [heq] at hdrop
      split at h
      · cases h
        simp only [List.length_drop, List.length_take, List.length_cons] at hdrop ⊢
        omega
      · cases h

/-! ## Levels of expressions -/

/-- What reading an expression yields: its level and the variables it came from, ascending. -/
structure Reading where
  level : Level := .untainted
  names : List Text := []
  deriving DecidableEq, Repr

namespace Reading

def nothing : Reading where

def join (a b : Reading) : Reading where
  level := a.level.join b.level
  names := insertNames a.names b.names

end Reading

/-- The path without its last component, if it has more than one. -/
def parentPath? (path : Text) : Option Text := (path.cutAtLastByte? 0x2E).map (·.1)

theorem length_parentPath? {path parent : Text} (h : parentPath? path = some parent) :
    parent.length < path.length := by
  have key : ∀ (t : Text) (front back : Text), t.cutAtLastByte? 0x2E = some (front, back) →
      front.length < t.length := by
    intro t
    induction t with
    | nil => simp [Text.cutAtLastByte?]
    | cons byte rest ih =>
        intro front back h
        simp only [Text.cutAtLastByte?] at h
        split at h
        · next f b hfb => cases h; simpa using ih _ _ hfb
        · split at h
          · cases h; simp
          · cases h
  obtain ⟨⟨front, back⟩, hcut, rfl⟩ := Option.map_eq_some_iff.mp h
  exact key _ _ _ hcut

namespace State

-- The bindings of the matches below serve the termination proofs only.
set_option linter.unusedVariables false in
/-- The longest tracked leading part of a dotted path, with its level. -/
def resolve (σ : State) (path : Text) : Option (Text × Level) :=
  if path.isEmpty then none
  else match σ.levels.get? path with
    | some level => some (path, level)
    | none =>
        match hparent : parentPath? path with
        | some parent => resolve σ parent
        | none => none
termination_by path.length
decreasing_by exact length_parentPath? hparent

/-- What naming a path reads. -/
def readName (σ : State) (path : Text) : Reading :=
  match σ.resolve path with
  | some (name, level) => { level, names := [name] }
  | none => .nothing

set_option linter.unusedVariables false in
/-- Reads a text in which literals are blanked out. -/
def readSpan (σ : State) : Text → Reading
  | [] => .nothing
  | byte :: rest =>
      if Text.isDigit byte then readSpan σ (rest.dropWhile isNamePart)
      else if hname : isNameStart byte then
        let named := σ.readName (splitName (byte :: rest)).1
        match hcall : splitCall? (splitName (byte :: rest)).2 with
        | some (arguments, behind) =>
            (named.join (readSpan σ arguments)).join (readSpan σ behind)
        | none => named.join (readSpan σ (splitName (byte :: rest)).2)
      else readSpan σ rest
termination_by text => text.length
decreasing_by
  · have := (List.dropWhile_sublist isNamePart (l := rest)).length_le
    simp; omega
  · have hrest := length_splitName_rest (show isNamePart byte by simp [isNamePart, hname]) rest
    have hlen := length_splitCall? hcall
    simp only [List.length_cons]; omega
  · have hrest := length_splitName_rest (show isNamePart byte by simp [isNamePart, hname]) rest
    have hlen := length_splitCall? hcall
    simp only [List.length_cons]; omega
  · have hrest := length_splitName_rest (show isNamePart byte by simp [isNamePart, hname]) rest
    simp only [List.length_cons]; omega
  · simp

/-- Reads an expression: its level and the variables it names. -/
def read (σ : State) (expression : Text) : Reading := σ.readSpan (stripLiterals expression)

end State

end Shortfall.Taint

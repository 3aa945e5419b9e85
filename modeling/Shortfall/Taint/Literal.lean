import Shortfall.Text

/-!
# String literals in expressions

Names inside quoted text are not variables, so an expression is scanned with its string literals
blanked out. A literal stands between two double quotes, two single quotes or two backquotes. In
the first two a backslash takes the following byte with it, which may not be a line feed; a
backquoted literal has no escapes. A quote that opens no complete literal is an ordinary byte.

Every byte of a literal becomes one space, so positions do not move.
-/

namespace Shortfall.Taint

def backslash : UInt8 := 0x5C

def lineFeed : UInt8 := 0x0A

/-- How many bytes a literal body takes, its closing quote included. -/
def escapedBodyLength? (quote : UInt8) : Text → Option Nat
  | [] => none
  | byte :: rest =>
      if byte = quote then some 1
      else if byte = backslash then
        match rest with
        | [] => none
        | escaped :: rest =>
            if escaped = lineFeed then none
            else (escapedBodyLength? quote rest).map (· + 2)
      else (escapedBodyLength? quote rest).map (· + 1)

def plainBodyLength? (quote : UInt8) : Text → Option Nat
  | [] => none
  | byte :: rest =>
      if byte = quote then some 1 else (plainBodyLength? quote rest).map (· + 1)

/-- The length of the rest of a literal that was opened by the given byte. -/
def literalRest? (opening : UInt8) (rest : Text) : Option Nat :=
  if opening = 0x22 || opening = 0x27 then escapedBodyLength? opening rest
  else if opening = 0x60 then plainBodyLength? opening rest
  else none

/-- Blanks `pending` bytes and then every literal. -/
def blankLiterals : (pending : Nat) → Text → Text
  | _, [] => []
  | pending + 1, _ :: rest => 0x20 :: blankLiterals pending rest
  | 0, byte :: rest =>
      match literalRest? byte rest with
      | some length => 0x20 :: blankLiterals length rest
      | none => byte :: blankLiterals 0 rest

/-- The expression with each string literal replaced by as many spaces. -/
def stripLiterals (expression : Text) : Text := blankLiterals 0 expression

end Shortfall.Taint

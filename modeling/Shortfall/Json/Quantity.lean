import Shortfall.Json
import Shortfall.Text.Numeral
import Shortfall.Word

/-!
# The numbers of a document

A number keeps its spelling until somebody asks what it is worth. As a quantity it is a signed
whole number of units of a power of ten.
-/

namespace Shortfall.Json

/-- The number `±digits · 10 ^ exponent`. -/
structure Quantity where
  negative : Bool
  digits : Nat
  exponent : Int
  deriving DecidableEq, Repr

namespace Quantity

/-- The largest power of ten that is still worked out. -/
def exponentLimit : Nat := 1000000

/-- The value of an exponent with its sign; one beyond 64 bits has none. -/
def exponentValue? (text : Text) : Option Int :=
  let (negative, digits) :=
    match text with
    | 0x2D :: digits => ((true, digits) : Bool × Text)
    | 0x2B :: digits => (false, digits)
    | _ => (false, text)
  match Text.digitsValue? digits with
  | none => none
  | some n =>
      if n < Word.signBound then some (if negative then -(n : Int) else n) else none

/-- The quantity that a literal stands for. -/
def ofLiteral? (literal : Text) : Option Quantity := do
  let (negative, body) :=
    match literal with
    | 0x2D :: body => ((true, body) : Bool × Text)
    | _ => (false, literal)
  let isMark := fun byte => byte = 0x65 || byte = 0x45
  let mantissa := body.takeWhile (!isMark ·)
  let exponent ←
    match body.dropWhile (!isMark ·) with
    | [] => some 0
    | _ :: exponent => exponentValue? exponent
  let whole := mantissa.takeWhile (· ≠ 0x2E)
  let fraction := (mantissa.dropWhile (· ≠ 0x2E)).drop 1
  let digits ← Text.digitsValue? (whole ++ fraction)
  some { negative, digits, exponent := exponent - fraction.length }

/-- Whether the quantity is a whole number. Powers of ten beyond the limit are not worked out, and
such a quantity counts as no whole number unless it is zero. -/
def isWhole (q : Quantity) : Bool :=
  q.digits = 0 ||
    (q.exponent.natAbs ≤ exponentLimit &&
      (0 ≤ q.exponent || (q.digits.log2 ≥ q.exponent.natAbs
        && q.digits % Nat.pow 10 q.exponent.natAbs = 0)))

def isBelowZero (q : Quantity) : Bool := q.negative && q.digits ≠ 0

end Quantity

/-- Whether a literal stands for a whole number. -/
def isWholeLiteral (literal : Text) : Bool := (Quantity.ofLiteral? literal).any Quantity.isWhole

def isBelowZeroLiteral (literal : Text) : Bool :=
  (Quantity.ofLiteral? literal).any Quantity.isBelowZero

end Shortfall.Json

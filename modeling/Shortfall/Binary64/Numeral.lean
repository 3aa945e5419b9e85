import Shortfall.Binary64
import Shortfall.Text.Numeral

/-!
# Decimal numerals of floating-point numbers

A numeral has digits with at most one point among them, a sign in front and an exponent behind;
both may be missing.
-/

namespace Shortfall.Binary64

/-- The digits of a numeral, as one number, and the power of ten that they count. -/
structure Decimal where
  digits : Nat
  exponent : Int

/-- Whether a decimal is less than a natural number. Decimals of very many or very few places are
told apart by their places alone. -/
def Decimal.isBelow (decimal : Decimal) (bound : Nat) : Bool :=
  let places : Int := (Nat.toDigits 10 decimal.digits).length + decimal.exponent
  if decimal.digits = 0 || places < 0 then 0 < bound
  else if places > (Nat.toDigits 10 bound).length + 1 then false
  else
    match decimal.exponent with
    | .ofNat e => decimal.digits * Nat.pow 10 e < bound
    | .negSucc e => decimal.digits < bound * Nat.pow 10 (e + 1)

/-- Reads an exponent part, which may be missing. -/
def exponentPart? : Text → Option Int
  | [] => some 0
  | mark :: rest =>
      if mark = 0x65 || mark = 0x45 then
        let (negative, digits) := Text.splitSign rest
        (Text.digitsValue? digits).map fun n => if negative then -(n : Int) else n
      else none

/-- Reads digits with at most one point, and an exponent. -/
def decimal? (text : Text) : Option Decimal := do
  let whole := text.takeWhile Text.isDigit
  let rest := text.dropWhile Text.isDigit
  let (fraction, rest) :=
    match rest with
    | 0x2E :: more => (more.takeWhile Text.isDigit, more.dropWhile Text.isDigit)
    | _ => (([] : Text), rest)
  let digits ← Text.digitsValue? (whole ++ fraction)
  let exponent ← exponentPart? rest
  some { digits, exponent := exponent - fraction.length }

/-- Reads a decimal numeral as the number nearest to it. -/
def parse (text : Text) : Except Text.NumeralError Binary64 :=
  let (negative, rest) := Text.splitSign text
  match decimal? rest with
  | none => .error .malformed
  | some decimal =>
      match ofDecimal? negative decimal.digits decimal.exponent with
      | some f => .ok f
      | none => .error .outOfRange

end Shortfall.Binary64

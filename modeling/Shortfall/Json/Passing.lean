import Shortfall.Binary64.Numeral
import Shortfall.Json.Parser

/-!
# Passing over values

A reader that knows which members it wants has to find the end of all the others. It looks at them
no closer than that takes: texts are read leniently, a name may be missing behind the first one of
an object, and a number is any run of digits with at most one point in it. Only a number that
goes on in some other way is worked out, and has to be one that can be held.
-/

namespace Shortfall.Json

/-- Reads a text; nothing reads as the empty text. -/
def textOrNull? (text : Text) : Option (Text × Text) :=
  match skipSpace text with
  | 0x22 :: rest => lenientText? false rest
  | rest => (keyword? "null" rest).map (([] : Text), ·)

/-! ## Numbers -/

/-- Whether a byte ends a number. -/
def endsNumber (byte : UInt8) : Bool :=
  byte = 0x2C || byte = 0x5D || byte = 0x7D || isSpace byte

/-- What is known of a number whose digits and points have been passed. -/
inductive DigitRun where
  | ended (rest : Text)
  | malformed
  /-- The number goes on with something else. -/
  | unclear
  deriving DecidableEq, Repr

/-- Passes digits and at most one point, which has a digit behind it. -/
def digitRun (pointSeen : Bool) : Text → DigitRun
  | [] => .unclear
  | byte :: rest =>
      if Text.isDigit byte then digitRun pointSeen rest
      else if byte = 0x2E then
        match pointSeen, rest with
        | true, _ => .malformed
        | false, [] => .unclear
        | false, next :: more =>
            if Text.isDigit next then digitRun true (next :: more) else .malformed
      else if endsNumber byte then .ended (byte :: rest)
      else .unclear

def isNumeralByte (byte : UInt8) : Bool :=
  Text.isDigit byte || byte = 0x2B || byte = 0x2D || byte = 0x2E || byte = 0x65 || byte = 0x45

/-- Whether the first point of a numeral, if there is one, has a digit behind it. -/
def pointHasDigit (numeral : Text) : Bool :=
  match numeral.dropWhile (· ≠ 0x2E) with
  | [] => true
  | _ :: rest => rest.head?.any Text.isDigit

/-- Whether a numeral starts with a point, or with a zero and a second digit. -/
def startsOddly : Text → Bool
  | 0x2E :: _ => true
  | 0x30 :: next :: _ => Text.isDigit next
  | _ => false

/-- The bound of binary exponents, which have 32 bits. -/
def exponentBound : Nat := 2147483648

/-- Whether a decimal numeral can be held as a floating-point number with a long exponent. The
decimal exponent has 64 bits. -/
def fitsLong (numeral : Text) : Bool :=
  let mark := numeral.dropWhile fun byte => byte ≠ 0x65 && byte ≠ 0x45
  match Binary64.decimal? numeral, Binary64.exponentPart? mark with
  | some decimal, some exponent =>
      let bits : Int := decimal.digits.log2 + 1 + decimal.exponent
      exponent < Word.signBound && -Word.signBound ≤ exponent &&
        (decimal.digits = 0 || (bits < exponentBound && -exponentBound ≤ bits))
  | _, _ => false

/-- Whether a decimal numeral without a minus can be held as a floating-point number. -/
def fitsDouble (numeral : Text) : Bool :=
  numeral.head? ≠ some 0x2D && pointHasDigit numeral &&
    match Binary64.parse numeral with
    | .ok _ => true
    | .error _ => false

/-- The least number that is too large for a floating-point number of 32 bits. -/
def singleBound : Nat := Nat.pow 2 128 - Nat.pow 2 103

/-- Whether a decimal numeral without a sign can be held as a floating-point number of 32 bits. -/
def fitsSingle (numeral : Text) : Bool :=
  pointHasDigit numeral && (Binary64.decimal? numeral).any (·.isBelow singleBound)

/-- Passes a number that digits alone do not end. -/
def passNumeral? (fits : Text → Bool) (text : Text) : Option Text :=
  if fits (text.takeWhile isNumeralByte) then some (text.dropWhile isNumeralByte) else none

/-- Passes a number that starts with a zero. -/
def passZero? (text : Text) : Option Text :=
  if startsOddly text then none else passNumeral? fitsSingle text

/-- Passes a number that starts with a minus or a digit other than zero. -/
def passNumber? (first : UInt8) (rest : Text) : Option Text :=
  let run := if rest.head?.any endsNumber then .unclear else digitRun false rest
  match run with
  | .ended rest => some rest
  | .malformed => none
  | .unclear =>
      let text := if first = 0x2D then rest else first :: rest
      passNumeral? (if startsOddly text then fitsLong else fitsDouble) text

/-! ## Values -/

mutual

/-- What stands behind a value. `room` is how much deeper values may be nested. -/
def pass? : (fuel room : Nat) → Text → Option Text
  | 0, _, _ => none
  | fuel + 1, room, text =>
      match skipSpace text with
      | [] => none
      | byte :: rest =>
          if byte = 0x22 then (lenientText? false rest).map (·.2)
          else if byte = 0x5B then
            match room with
            | 0 => none
            | room + 1 =>
                match skipSpace rest with
                | 0x5D :: rest => some rest
                | _ => passItems? fuel room rest
          else if byte = 0x7B then
            match room with
            | 0 => none
            | room + 1 =>
                match skipSpace rest with
                | 0x7D :: rest => some rest
                | 0x22 :: _ => passMembers? fuel room rest
                | _ => none
          else if byte = 0x6E then keyword? "null" (byte :: rest)
          else if byte = 0x74 then keyword? "true" (byte :: rest)
          else if byte = 0x66 then keyword? "false" (byte :: rest)
          else if byte = 0x30 then passZero? (byte :: rest)
          else if byte = 0x2D || Text.isDigit byte then passNumber? byte rest
          else none

/-- What stands behind the items of an array that has some, and its closing bracket. -/
def passItems? : (fuel room : Nat) → Text → Option Text
  | 0, _, _ => none
  | fuel + 1, room, text => do
      match skipSpace (← pass? fuel room text) with
      | 0x2C :: rest => passItems? fuel room rest
      | 0x5D :: rest => some rest
      | _ => none

/-- What stands behind the members of an object that has some, and its closing brace. -/
def passMembers? : (fuel room : Nat) → Text → Option Text
  | 0, _, _ => none
  | fuel + 1, room, text => do
      let (_, rest) ← textOrNull? text
      match skipSpace rest with
      | 0x3A :: rest => do
          match skipSpace (← pass? fuel room rest) with
          | 0x2C :: rest => passMembers? fuel room rest
          | 0x7D :: rest => some rest
          | _ => none
      | _ => none

end

end Shortfall.Json

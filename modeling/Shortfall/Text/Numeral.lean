import Shortfall.Text
import Shortfall.Word

/-!
# Integer numerals

Numerals with a sign and a base. The base may be given by a marker in front of the digits: `0x`
for sixteen, `0o` or a plain zero for eight, `0b` for two. Underscores may separate digits where
the base is left to the marker.
-/

namespace Shortfall.Text

/-- Why a numeral denotes no integer of 64 bits. -/
inductive NumeralError where
  | malformed
  | outOfRange
  deriving DecidableEq, Repr

def NumeralError.message : NumeralError → Text
  | malformed => "invalid syntax"
  | outOfRange => "value out of range"

def lowerLetter (byte : UInt8) : UInt8 :=
  if 0x41 ≤ byte && byte ≤ 0x5A then byte + 0x20 else byte

def digitIn? (base : Nat) (byte : UInt8) : Option Nat :=
  let letter := lowerLetter byte
  let value :=
    if isDigit byte then byte.toNat - 0x30
    else if 0x61 ≤ letter && letter ≤ 0x7A then letter.toNat - 0x61 + 10
    else base
  if value < base then some value else none

/-- The value of digits in a base behind what was read so far. Overflow is noticed as soon as it
happens, so it is reported even where a later character is no digit. -/
def valueFrom (base value : Nat) : Text → Except NumeralError Nat
  | [] => .ok value
  | byte :: rest =>
      match digitIn? base byte with
      | none => .error .malformed
      | some digit =>
          if value * base + digit < Word.count then valueFrom base (value * base + digit) rest
          else .error .outOfRange

/-- The value of digits in a base, of which there must be some. -/
def valueIn (base : Nat) (digits : Text) : Except NumeralError Nat :=
  if digits.isEmpty then .error .malformed else valueFrom base 0 digits

/-- The base that the front of a numeral announces, and the digits behind the announcement. -/
def announcedBase (digits : Text) : Nat × Text :=
  match digits with
  | 0x30 :: marker :: rest =>
      let letter := lowerLetter marker
      if rest.isEmpty then (8, [marker])
      else if letter = 0x78 then (16, rest)
      else if letter = 0x6F then (8, rest)
      else if letter = 0x62 then (2, rest)
      else (8, marker :: rest)
  | _ => (10, digits)

/-- Whether underscores stand only between digits, where an announcement counts as a digit.
`afterDigit` tells what came before. -/
def underscoresSeparate : (afterDigit : Bool) → Text → Bool
  | _, [] => true
  | afterDigit, byte :: rest =>
      if byte = 0x5F then
        afterDigit && rest.head?.any (fun next => (digitIn? 16 next).isSome)
          && underscoresSeparate false rest
      else underscoresSeparate true rest

/-- The magnitude of a numeral whose base is announced. -/
def announcedValue (numeral : Text) : Except NumeralError Nat :=
  if numeral.isEmpty then .error .malformed
  else
    let (base, digits) := announcedBase numeral
    match valueIn base (digits.filter (· ≠ 0x5F)) with
    | .ok value =>
        if underscoresSeparate (base ≠ 10) digits then .ok value else .error .malformed
    | .error e => .error e

/-- Splits off a sign; the flag is set for a minus. -/
def splitSign : Text → Bool × Text
  | 0x2B :: rest => (false, rest)
  | 0x2D :: rest => (true, rest)
  | text => (false, text)

def inSignedRange (negative : Bool) (value : Nat) : Bool :=
  if negative then value ≤ Word.signBound else value < Word.signBound

/-- Reads a signed integer of 64 bits, given how its magnitude is read. -/
def signedWith (magnitude : Text → Except NumeralError Nat) (text : Text) :
    Except NumeralError Int :=
  let (negative, digits) := splitSign text
  match magnitude digits with
  | .error e => .error e
  | .ok value =>
      if inSignedRange negative value then
        .ok (if negative then -(value : Int) else value)
      else .error .outOfRange

/-- Reads a signed integer of 64 bits whose base is announced. -/
def parseInt (text : Text) : Except NumeralError Int := signedWith announcedValue text

/-- Reads a signed integer of 64 bits in a given base. -/
def parseIntIn (base : Nat) (text : Text) : Except NumeralError Int :=
  signedWith (valueIn base) text

end Shortfall.Text

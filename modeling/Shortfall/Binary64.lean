import Shortfall.Text
import Shortfall.Word

/-!
# Floating-point numbers of 64 bits

Numbers as configuration files may write them, rounded to the nearest double with ties to the
even neighbour. All arithmetic is on natural numbers: a finite number is a mantissa times a power
of two, and a decimal is compared with it as a fraction.

The shortest decimal of a number is sought by length. For each number of digits the value lies
between two neighbouring decimals of that length; the first of them that rounds back to the
number is taken, the nearer one where both do, and the even one where both are equally near.
-/

namespace Shortfall

inductive Binary64 where
  | nan
  | infinity (negative : Bool)
  /-- The number `mantissa * 2 ^ exponent`, with its sign. -/
  | finite (negative : Bool) (mantissa : Nat) (exponent : Int)
  deriving DecidableEq, Repr

namespace Binary64

def leastExponent : Int := -1074

/-- `n / d` rounded to the nearest integer, ties to even. -/
def roundDiv (n d : Nat) : Nat :=
  let q := n / d
  let r := n % d
  if 2 * r > d || (2 * r = d && q % 2 = 1) then q + 1 else q

/-- A fraction as a numerator and a denominator scaled by a power of two. -/
def scaleBy (n d : Nat) (exponent : Int) : Nat × Nat :=
  match exponent with
  | .ofNat e => (n, d * Nat.pow 2 e)
  | .negSucc e => (n * Nat.pow 2 (e + 1), d)

/-- The mantissa and exponent nearest to a fraction, or nothing when it is too large. -/
def ofFraction? (n d : Nat) : Option (Nat × Int) :=
  if n = 0 then some (0, 0)
  else
    let estimate : Int := (n.log2 : Int) - (d.log2 : Int) - 52
    -- The difference of the logarithms may be one too large.
    let (a, b) := scaleBy n d estimate
    let exponent := max (if a / b < Nat.pow 2 52 then estimate - 1 else estimate) leastExponent
    let (a, b) := scaleBy n d exponent
    let mantissa := roundDiv a b
    let (mantissa, exponent) :=
      if mantissa = Nat.pow 2 53 then (Nat.pow 2 52, exponent + 1) else (mantissa, exponent)
    if exponent > 971 then none else some (mantissa, exponent)

/-- The number nearest to `digits * 10 ^ exponent`, or nothing when it is too large. -/
def ofDecimal? (negative : Bool) (digits : Nat) (exponent : Int) : Option Binary64 :=
  let magnitude : Int := (Nat.toDigits 10 digits).length + exponent
  if digits = 0 || magnitude < -400 then some (finite negative 0 0)
  else if magnitude > 400 then none
  else
    let fraction : Nat × Nat :=
      match exponent with
      | .ofNat e => (digits * Nat.pow 10 e, 1)
      | .negSucc e => (digits, Nat.pow 10 (e + 1))
    (ofFraction? fraction.1 fraction.2).map fun (m, e) => finite negative m e

/-- The integer part, toward zero. -/
def truncate (mantissa : Nat) (exponent : Int) : Nat :=
  match exponent with
  | .ofNat e => mantissa * Nat.pow 2 e
  | .negSucc e => mantissa / Nat.pow 2 (e + 1)

/-- The floating-point number nearest to a natural number, which is a natural number again. -/
def roundNat (n : Nat) : Nat :=
  match ofFraction? n 1 with
  | some (mantissa, exponent) => truncate mantissa exponent
  | none => 0

/-- The integer part as an integer of 64 bits; what does not fit becomes the least one. -/
def toInt64 : Binary64 → Int
  | finite negative mantissa exponent =>
      let value : Int :=
        if negative then -(truncate mantissa exponent : Int) else truncate mantissa exponent
      if -(Word.signBound : Int) ≤ value && value < Word.signBound then value
      else -(Word.signBound : Int)
  | _ => -(Word.signBound : Int)

/-- Whether the number is at most `2 ^ 63`. -/
def atMostMaxInt64 : Binary64 → Bool
  | nan => false
  | infinity negative => negative
  | finite negative mantissa exponent =>
      negative || truncate mantissa exponent < Word.signBound
        || (truncate mantissa exponent = Word.signBound
            && decide (exponent ≥ 0 ∨ mantissa % Nat.pow 2 (-exponent).toNat = 0))

/-! ## Shortest decimals -/

/-- The fraction that a mantissa and an exponent denote. -/
def fractionOf (mantissa : Nat) (exponent : Int) : Nat × Nat :=
  match exponent with
  | .ofNat e => (mantissa * Nat.pow 2 e, 1)
  | .negSucc e => (mantissa, Nat.pow 2 (e + 1))

/-- The floor of `n / d / 10 ^ unit`, with the fraction it was computed from. -/
def floorAt (n d : Nat) (unit : Int) : Nat × Nat × Nat :=
  match unit with
  | .ofNat u => (n / (d * Nat.pow 10 u), n, d * Nat.pow 10 u)
  | .negSucc u => (n * Nat.pow 10 (u + 1) / d, n * Nat.pow 10 (u + 1), d)

/-- Whether `digits * 10 ^ unit` rounds to the given mantissa and exponent. -/
def roundsTo (mantissa : Nat) (exponent : Int) (digits : Nat) (unit : Int) : Bool :=
  ofDecimal? false digits unit = some (finite false mantissa exponent)

/-- The decimal of at most `count` digits for the number, if there is one. -/
def decimalOf? (mantissa : Nat) (exponent : Int) (top : Int) (count : Nat) :
    Option (Nat × Int) :=
  let unit : Int := top - count
  let (n, d) := fractionOf mantissa exponent
  let (below, a, b) := floorAt n d unit
  let lowHit := roundsTo mantissa exponent below unit
  let highHit := roundsTo mantissa exponent (below + 1) unit
  if lowHit && highHit then some (roundDiv a b, unit)
  else if lowHit then some (below, unit)
  else if highHit then some (below + 1, unit)
  else none

/-- The fewest digits that read back as the number, with the power of ten they count. -/
def shortest (mantissa : Nat) (exponent : Int) : Nat × Int :=
  let (n, d) := fractionOf mantissa exponent
  let top : Int :=
    if n ≥ d then (Nat.toDigits 10 (n / d)).length
    else 1 - (Nat.toDigits 10 (d / n)).length + 1
  ((List.range 20).findSome? fun k => decimalOf? mantissa exponent top (k + 1)).getD (0, 0)

/-- A decimal in positional notation. -/
def positional (digits : Nat) (unit : Int) : Text :=
  let numeral := Text.ofNat digits
  match unit with
  | .ofNat u => if digits = 0 then "0" else numeral ++ List.replicate u 0x30
  | .negSucc u =>
      let places := u + 1
      let padded := List.replicate (places + 1 - numeral.length) 0x30 ++ numeral
      let whole := padded.take (padded.length - places)
      let fraction := (padded.drop (padded.length - places)).reverse.dropWhile (· = 0x30)
      if fraction.isEmpty then whole else whole ++ "." ++ fraction.reverse

/-- The number in positional notation with the fewest digits. -/
def text : Binary64 → Text
  | nan => "NaN"
  | infinity true => "-Inf"
  | infinity false => "+Inf"
  | finite negative mantissa exponent =>
      let sign : Text := if negative then "-" else []
      if mantissa = 0 then sign ++ "0"
      else
        let (digits, unit) := shortest mantissa exponent
        sign ++ positional digits unit

/-- The number with the fewest digits, in positional notation unless its exponent is below -4 or
at least 6. -/
def scientific : Binary64 → Text
  | finite negative mantissa exponent =>
      let sign : Text := if negative then "-" else []
      if mantissa = 0 then sign ++ "0"
      else
        let (digits, unit) := shortest mantissa exponent
        let numeral := ((Text.ofNat digits).reverse.dropWhile (· = 0x30)).reverse
        let power : Int := ((Text.ofNat digits).length : Int) - 1 + unit
        if -4 ≤ power && power < 6 then sign ++ positional digits unit
        else
          sign ++ numeral.take 1 ++ (if numeral.length > 1 then "." ++ numeral.drop 1 else [])
            ++ (if power < 0 then "e-" else "e+") ++ Text.ofNatPadded 2 power.natAbs
  | f => f.text

/-- Ascending order, in which a value that is no number comes first. -/
def atMost : Binary64 → Binary64 → Bool
  | nan, _ => true
  | _, nan => false
  | infinity negative, infinity negative' => negative || !negative'
  | infinity negative, finite .. => negative
  | finite .., infinity negative => !negative
  | finite negative mantissa exponent, finite negative' mantissa' exponent' =>
      let (n, d) := fractionOf mantissa exponent
      let (n', d') := fractionOf mantissa' exponent'
      let left : Int := n * d'
      let right : Int := n' * d
      (if negative then -left else left) ≤ (if negative' then -right else right)

end Binary64

end Shortfall

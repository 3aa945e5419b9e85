import Shortfall.Binary64.Numeral
import Shortfall.Toml.Fault

/-!
# Numbers in TOML

Underscores may separate digits. An integer is decimal, where a zero in front is not allowed, or
has a marker of its base. A floating-point number has digits on both sides of its point.
-/

namespace Shortfall.Toml

/-! ## Integers -/

/-- Drops the underscores behind the first one, each of which needs a digit in front of it. -/
def dropUnderscores : (before : Bool) → Text → Except Fault Text
  | _, [] => .ok []
  | before, byte :: rest =>
      if byte = 0x5F then
        if before then dropUnderscores false rest else .error .underscoresAdjacent
      else
        match dropUnderscores true rest with
        | .error fault => .error fault
        | .ok others => .ok (byte :: others)

/-- The numeral of an integer without its underscores. -/
def plainInteger (numeral : Text) : Except Fault Text :=
  let (_, digits) := Text.splitSign numeral
  if digits.isEmpty then .ok numeral
  else if digits.head? = some 0x5F then .error .underscoreFirst
  else if digits.getLast? = some 0x5F then .error .underscoreLast
  else
    match dropUnderscores false ((numeral.dropWhile (· ≠ 0x5F)).drop 1) with
    | .error fault => .error fault
    | .ok others => .ok (numeral.takeWhile (· ≠ 0x5F) ++ others)

/-- The value of the digits of an integer. -/
def integerIn (base : Base) (numeral : Text) : Except Fault Int :=
  match plainInteger numeral with
  | .error fault => .error fault
  | .ok plain =>
      let (_, digits) := Text.splitSign plain
      if base = .decimal && digits.length > 1 && digits.head? = some 0x30 then
        .error .leadingZero
      else
        match Text.parseIntIn base.radix plain with
        | .error error => .error (.badInteger base plain error)
        | .ok n => .ok n

/-- The value of an integer, which may have a marker of its base. -/
def integer (numeral : Text) : Except Fault Int :=
  match numeral with
  | 0x30 :: 0x78 :: digit :: rest => integerIn .hexadecimal (digit :: rest)
  | 0x30 :: 0x62 :: digit :: rest => integerIn .binary (digit :: rest)
  | 0x30 :: 0x6F :: digit :: rest => integerIn .octal (digit :: rest)
  | _ => integerIn .decimal numeral

/-! ## Floating-point numbers -/

/-- Drops the underscores of a numeral, none of which may touch the point or the exponent's
mark. `last` is the byte in front and `before` tells whether a digit came since the last
underscore or sign. -/
def dropFloatUnderscores : (last : UInt8) → (before : Bool) → Text → Except Fault Text
  | _, _, [] => .ok []
  | last, before, byte :: rest =>
      let next := rest.head?
      let keep := fun (before : Bool) =>
        match dropFloatUnderscores byte before rest with
        | .error fault => .error fault
        | .ok others => .ok (byte :: others)
      if byte = 0x5F then
        if !before then .error .underscoresAdjacent
        else if next = some 0x65 || next = some 0x45 then .error .underscoreBeforeExponent
        else dropFloatUnderscores byte false rest
      else if byte = 0x2B || byte = 0x2D then keep false
      else if byte = 0x65 || byte = 0x45 then
        if next = some 0x5F then .error .underscoreAfterExponent else keep before
      else if byte = 0x2E then
        if next = some 0x5F then .error .underscoreAfterPoint
        else if last = 0x5F then .error .underscoreBeforePoint
        else keep before
      else keep true

/-- The numeral of a floating-point number without its underscores. -/
def plainFloat (numeral : Text) : Except Fault Text :=
  if numeral.head? = some 0x5F then .error .underscoreFirst
  else if numeral.getLast? = some 0x5F then .error .underscoreLast
  else if numeral.contains 0x5F then dropFloatUnderscores 0 false numeral
  else .ok numeral

/-- Checks the surroundings of the points in a numeral. `last` is the byte in front and `seen`
tells whether a point was there already. -/
def checkPoints : (last : Option UInt8) → (seen : Bool) → Text → Except Fault Unit
  | _, _, [] => .ok ⟨⟩
  | last, seen, byte :: rest =>
      if byte ≠ 0x2E then checkPoints (some byte) seen rest
      else if seen then .error .twoPoints
      else if !last.any Text.isDigit then .error .noDigitBeforePoint
      else if !rest.head?.any Text.isDigit then .error .noDigitAfterPoint
      else checkPoints (some byte) true rest

/-- Whether digits start with a zero before another digit. -/
def hasLeadingZeros : Text → Bool
  | 0x30 :: next :: _ => Text.isDigit next
  | _ => false

/-- The words for what is no finite number. -/
def specialFloats : List (Text × Binary64) := [
  ("inf", .infinity false), ("+inf", .infinity false), ("-inf", .infinity true),
  ("nan", .nan), ("+nan", .nan), ("-nan", .nan)]

/-- The value of a floating-point number. -/
def float (numeral : Text) : Except Fault Binary64 :=
  match specialFloats.lookup numeral with
  | some f => .ok f
  | none =>
      match plainFloat numeral with
      | .error fault => .error fault
      | .ok plain =>
          if plain.head? = some 0x2E then .error .pointFirst
          else if plain.getLast? = some 0x2E then .error .pointLast
          else
            match checkPoints none false plain with
            | .error fault => .error fault
            | .ok _ =>
                if hasLeadingZeros (Text.splitSign plain).2 then .error .leadingZeros
                else
                  match Binary64.parse plain with
                  | .error error => .error (.badFloat plain error)
                  | .ok f => .ok f

end Shortfall.Toml

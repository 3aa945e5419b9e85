import Shortfall.Json
import Shortfall.Json.Quoted

/-!
# Reading JSON

Reading takes the first value of a text and returns what stands behind it; what may follow is
for the caller to say. Values may be nested `maxDepth` deep.
-/

namespace Shortfall.Json

/-- How deep arrays and objects may be nested. -/
def maxDepth : Nat := 10000

def isSpace (byte : UInt8) : Bool :=
  byte = 0x20 || byte = 0x09 || byte = 0x0A || byte = 0x0D

def skipSpace (text : Text) : Text := text.dropWhile isSpace

/-! ## Numbers -/

/-- Splits off a nonempty run of digits. -/
def digits? (text : Text) : Option (Text × Text) :=
  match text.takeWhile Text.isDigit with
  | [] => none
  | digits => some (digits, text.dropWhile Text.isDigit)

/-- A point with digits, or nothing. -/
def fraction? : Text → Option (Text × Text)
  | 0x2E :: rest => (digits? rest).map fun (digits, rest) => (0x2E :: digits, rest)
  | text => some ([], text)

/-- A mark with an optional sign and digits, or nothing. -/
def exponent? : Text → Option (Text × Text)
  | [] => some ([], [])
  | mark :: rest =>
      if mark = 0x65 || mark = 0x45 then
        match rest with
        | sign :: more =>
            if sign = 0x2B || sign = 0x2D then
              (digits? more).map fun (digits, rest) => (mark :: sign :: digits, rest)
            else (digits? rest).map fun (digits, rest) => (mark :: digits, rest)
        | [] => none
      else some ([], mark :: rest)

def number? (text : Text) : Option (Text × Text) := do
  let (sign, rest) :=
    match text with
    | 0x2D :: rest => ((([0x2D], rest)) : Text × Text)
    | _ => ([], text)
  let (digits, rest) ←
    match rest with
    | 0x30 :: rest => some (([0x30], rest) : Text × Text)
    | _ => digits? rest
  let (fraction, rest) ← fraction? rest
  let (exponent, rest) ← exponent? rest
  some (sign ++ digits ++ fraction ++ exponent, rest)

/-! ## Values

Every byte that is read takes at most two steps off the fuel, so twice the length of a text is
enough for it. -/

/-- What stands behind a word at the front of a text. -/
def keyword? (word text : Text) : Option Text :=
  if text.startsWith word then some (text.drop word.length) else none

mutual

/-- Reads a value. `room` is how much deeper values may be nested. -/
def value? : (fuel room : Nat) → Text → Option (Json × Text)
  | 0, _, _ => none
  | fuel + 1, room, text =>
      match skipSpace text with
      | [] => none
      | byte :: rest =>
          if byte = 0x22 then (strictText? rest).map fun (text, rest) => (.string text, rest)
          else if byte = 0x5B then
            match room with
            | 0 => none
            | room + 1 =>
                match skipSpace rest with
                | 0x5D :: rest => some (.array [], rest)
                | _ => (items? fuel room rest).map fun (items, rest) => (.array items, rest)
          else if byte = 0x7B then
            match room with
            | 0 => none
            | room + 1 =>
                match skipSpace rest with
                | 0x7D :: rest => some (.object [], rest)
                | _ => (members? fuel room rest).map fun (members, rest) => (.object members, rest)
          else if byte = 0x6E then (keyword? "null" (byte :: rest)).map (.null, ·)
          else if byte = 0x74 then (keyword? "true" (byte :: rest)).map (.bool true, ·)
          else if byte = 0x66 then (keyword? "false" (byte :: rest)).map (.bool false, ·)
          else if byte = 0x2D || Text.isDigit byte then
            (number? (byte :: rest)).map fun (literal, rest) => (.number literal, rest)
          else none

/-- Reads the items of an array that has some, with the closing bracket. -/
def items? : (fuel room : Nat) → Text → Option (List Json × Text)
  | 0, _, _ => none
  | fuel + 1, room, text => do
      let (item, rest) ← value? fuel room text
      match skipSpace rest with
      | 0x2C :: rest => do
          let (items, rest) ← items? fuel room rest
          some (item :: items, rest)
      | 0x5D :: rest => some ([item], rest)
      | _ => none

/-- Reads the members of an object that has some, with the closing brace. -/
def members? : (fuel room : Nat) → Text → Option (List (Text × Json) × Text)
  | 0, _, _ => none
  | fuel + 1, room, text =>
      match skipSpace text with
      | 0x22 :: rest => do
          let (name, rest) ← strictText? rest
          match skipSpace rest with
          | 0x3A :: rest => do
              let (value, rest) ← value? fuel room rest
              match skipSpace rest with
              | 0x2C :: rest => do
                  let (members, rest) ← members? fuel room rest
                  some ((name, value) :: members, rest)
              | 0x7D :: rest => some ([(name, value)], rest)
              | _ => none
          | _ => none
      | _ => none

end

/-- The first value of a text, and what stands behind it. -/
def first? (text : Text) : Option (Json × Text) := value? (2 * text.length + 2) maxDepth text

/-- The value of a text in which nothing but white space stands behind it. -/
def parse? (text : Text) : Option Json :=
  match first? text with
  | some (value, rest) => if (skipSpace rest).isEmpty then some value else none
  | none => none

end Shortfall.Json

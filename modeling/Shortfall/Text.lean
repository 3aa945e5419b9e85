/-!
# Byte texts

Every text the tool handles may come from a file, an argument or an environment variable, and
none of those promises to be well-formed UTF-8. A text is therefore a plain list of bytes;
characters are a view of it (`Shortfall.Text.Utf8`), taken only by the operations that speak of
characters. Order, equality, search and length are all bytewise, so the lemmas of `List` apply
to texts as they stand.

Literals are written as strings and coerced by `Text.ofString`.
-/

namespace Shortfall

/-- A text is its bytes. -/
abbrev Text := List UInt8

namespace Text

/-- The bytes of a sequence of characters. -/
def ofChars (chars : List Char) : Text := chars.flatMap String.utf8EncodeChar

def ofString (s : String) : Text := ofChars s.toList

instance : Coe String Text := ⟨ofString⟩

/-- Bytewise order, as a test. -/
def before (a b : Text) : Bool := decide (a < b)

/-- Bytewise order with equality, the order in which every listing is sorted. -/
def atMost (a b : Text) : Bool := !before b a

def startsWith (text start : Text) : Bool := start.isPrefixOf text

def endsWith (text ending : Text) : Bool := ending.isSuffixOf text

/-- Whether `needle` occurs somewhere in the text; the empty needle occurs in every text. -/
def occursIn (needle : Text) : Text → Bool
  | [] => needle.isEmpty
  | byte :: rest => needle.isPrefixOf (byte :: rest) || occursIn needle rest

/-- The text without `ending` where it ends with it, and unchanged otherwise. -/
def dropEnding (text ending : Text) : Text :=
  if text.endsWith ending then text.take (text.length - ending.length) else text

/-- The parts between the occurrences of one byte; there is always at least one part. -/
def splitAtByte (separator : UInt8) : Text → List Text
  | [] => [[]]
  | byte :: rest =>
      if byte = separator then [] :: splitAtByte separator rest
      else match splitAtByte separator rest with
        | [] => [[byte]]
        | part :: parts => (byte :: part) :: parts

/-- What stands before and after the first occurrence of a byte. -/
def cutAtByte? (separator : UInt8) : Text → Option (Text × Text)
  | [] => none
  | byte :: rest =>
      if byte = separator then some ([], rest)
      else (cutAtByte? separator rest).map fun (front, back) => (byte :: front, back)

/-- What stands before and after the last occurrence of a byte. -/
def cutAtLastByte? (separator : UInt8) : Text → Option (Text × Text)
  | [] => none
  | byte :: rest =>
      match cutAtLastByte? separator rest with
      | some (front, back) => some (byte :: front, back)
      | none => if byte = separator then some ([], rest) else none

def joinWith (separator : Text) : List Text → Text
  | [] => []
  | [part] => part
  | part :: parts => part ++ separator ++ joinWith separator parts

def replaceByte (old new : UInt8) (text : Text) : Text :=
  text.map fun byte => if byte = old then new else byte

/-! ## Numerals -/

def isDigit (byte : UInt8) : Bool := 0x30 ≤ byte && byte ≤ 0x39

def ofNat (n : Nat) : Text := ofChars (Nat.toDigits 10 n)

def ofInt : Int → Text
  | .ofNat n => ofNat n
  | .negSucc n => 0x2D :: ofNat (n + 1)

/-- The numeral of `n`, filled up with zeros to `width` digits. -/
def ofNatPadded (width n : Nat) : Text :=
  List.replicate (width - (ofNat n).length) 0x30 ++ ofNat n

/-- The value of a digit below 16, in either case. -/
def hexValue? (byte : UInt8) : Option Nat :=
  if 0x30 ≤ byte && byte ≤ 0x39 then some (byte.toNat - 0x30)
  else if 0x61 ≤ byte && byte ≤ 0x66 then some (byte.toNat - 0x61 + 10)
  else if 0x41 ≤ byte && byte ≤ 0x46 then some (byte.toNat - 0x41 + 10)
  else none

/-- The last `width` hexadecimal digits of `n`, in lower case. -/
def ofHex : (width n : Nat) → Text
  | 0, _ => []
  | width + 1, n =>
      let digit := n % 16
      ofHex width (n / 16) ++ [UInt8.ofNat (if digit < 10 then 0x30 + digit else 0x57 + digit)]

/-- The number a nonempty run of decimal digits denotes. -/
def digitsValue? : Text → Option Nat
  | [] => none
  | digits =>
      if digits.all isDigit then
        some (digits.foldl (fun value digit => value * 10 + (digit.toNat - 0x30)) 0)
      else none

end Text

end Shortfall

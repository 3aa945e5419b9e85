import Shortfall.Text.Utf8

/-!
# Texts in quotes

A text stands between quotes, and a backslash in it starts an escape. An escape of one half of a
surrogate pair needs the other half behind it; a half on its own reads as the replacement
character.

Two styles of reading differ in what they put up with. The *strict* one has no control characters
in texts, lets a half that finds no partner stand for itself, and mends bytes that are not UTF-8.
The *lenient* one lets control characters stand behind the first escape and keeps all bytes as
they are; there a half takes the escape behind it along in any case.
-/

namespace Shortfall.Json

inductive QuoteStyle where
  | strict
  | lenient
  deriving DecidableEq, Repr

def hexQuad? : Text → Option (Nat × Text)
  | a :: b :: c :: d :: rest => do
      let a ← Text.hexValue? a
      let b ← Text.hexValue? b
      let c ← Text.hexValue? c
      let d ← Text.hexValue? d
      some (((a * 16 + b) * 16 + c) * 16 + d, rest)
  | _ => none

def isSurrogate (unit : Nat) : Bool := 0xD800 ≤ unit && unit < 0xE000

/-- Whether two code units are one character. -/
def isPair (high low : Nat) : Bool :=
  0xD800 ≤ high && high < 0xDC00 && 0xDC00 ≤ low && low < 0xE000

/-- The bytes of a code unit that stands alone. -/
def unitBytes (unit : Nat) : Text :=
  String.utf8EncodeChar (if isSurrogate unit then Text.replacement else Char.ofNat unit)

/-- The bytes of two code units, which are one character where they form a pair. -/
def unitPairBytes (high low : Nat) : Text :=
  if isPair high low then
    String.utf8EncodeChar (Char.ofNat ((high - 0xD800) * 0x400 + (low - 0xDC00) + 0x10000))
  else unitBytes high ++ unitBytes low

/-- The bytes of a surrogate and of the escape behind it, as far as it belongs to it. -/
def surrogate? (style : QuoteStyle) (unit : Nat) (rest : Text) : Option (Text × Text) :=
  match rest with
  | 0x5C :: 0x75 :: more => do
      let (low, more) ← hexQuad? more
      if style = .strict && !isPair unit low then some (unitBytes unit, rest)
      else some (unitPairBytes unit low, more)
  | _ => some (unitBytes unit, rest)

/-- The bytes of an escape, read behind its backslash, and the rest. -/
def escape? (style : QuoteStyle) : Text → Option (Text × Text)
  | 0x22 :: rest => some ([0x22], rest)
  | 0x5C :: rest => some ([0x5C], rest)
  | 0x2F :: rest => some ([0x2F], rest)
  | 0x62 :: rest => some ([0x08], rest)
  | 0x66 :: rest => some ([0x0C], rest)
  | 0x6E :: rest => some ([0x0A], rest)
  | 0x72 :: rest => some ([0x0D], rest)
  | 0x74 :: rest => some ([0x09], rest)
  | 0x75 :: rest => do
      let (unit, rest) ← hexQuad? rest
      if isSurrogate unit then surrogate? style unit rest else some (unitBytes unit, rest)
  | _ => none

/-- Reads a text behind its opening quote. `controls` says whether control characters may stand
in it. Every step takes a byte at least, so `fuel` of more than the number of bytes is enough. -/
def quotedBytes? (style : QuoteStyle) : (fuel : Nat) → (controls : Bool) → Text →
    Option (Text × Text)
  | 0, _, _ => none
  | _ + 1, _, [] => none
  | fuel + 1, controls, byte :: rest =>
      if byte = 0x22 then some ([], rest)
      else if byte = 0x5C then do
        let (bytes, rest) ← escape? style rest
        let (more, rest) ← quotedBytes? style fuel (controls || style = .lenient) rest
        some (bytes ++ more, rest)
      else if byte < 0x20 && !controls then none
      else do
        let (more, rest) ← quotedBytes? style fuel controls rest
        some (byte :: more, rest)

/-- Reads a text strictly, behind its opening quote. -/
def strictText? (text : Text) : Option (Text × Text) :=
  (quotedBytes? .strict (text.length + 1) false text).map fun (bytes, rest) => (bytes.mend, rest)

/-- Reads a text leniently, behind its opening quote. -/
def lenientText? (controls : Bool) (text : Text) : Option (Text × Text) :=
  quotedBytes? .lenient (text.length + 1) controls text

end Shortfall.Json

import Shortfall.Text.CaseTable
import Shortfall.Text.Utf8

/-!
# Letter case

Case changes are made character by character and keep the number of characters. A stray byte
has no case; a text whose case was changed shows it as the replacement character, so the result
is always well formed.

Comparison without regard to case goes through `foldKey`: two characters match when their keys
agree. The dotted and the dotless i have case partners only under special rules of single
languages and so match nothing but themselves. A few characters match others although no case
mapping leads from one to the other.
-/

namespace Shortfall.Text

def lowerChar (c : Char) : Char := Char.ofNat (shiftBy lowerRows c.toNat)

def upperChar (c : Char) : Char := Char.ofNat (shiftBy upperRows c.toNat)

def lower (text : Text) : Text := ofChars (text.shown.map lowerChar)

def upper (text : Text) : Text := ofChars (text.shown.map upperChar)

/-- Code points that match another one without a case mapping between them. -/
def foldPartners : List (Nat × Nat) := [(0x1FD3, 0x390), (0x1FE3, 0x3B0), (0xFB05, 0xFB06)]

/-- The common representative of the characters that differ in case only. -/
def foldKey (c : Char) : Char :=
  if c = 'İ' || c = 'ı' then c
  else
    match foldPartners.lookup c.toNat with
    | some partner => Char.ofNat partner
    | none => lowerChar (upperChar c)

/-- Equality without regard to case. -/
def equalFold (a b : Text) : Bool := a.shown.map foldKey == b.shown.map foldKey

/-! ## Letters of the ASCII range only -/

def lowerByte (byte : UInt8) : UInt8 :=
  if 0x41 ≤ byte && byte ≤ 0x5A then byte + 0x20 else byte

/-- The text with `A` to `Z` in lower case and every other byte as it is. -/
def lowerAscii (text : Text) : Text := text.map lowerByte

end Shortfall.Text

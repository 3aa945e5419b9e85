import Shortfall.Text.Printable
import Shortfall.Text.Utf8

/-!
# Quoted texts

How a message shows a text that it names: between double quotes, on one line, with everything
that is not printable spelled as an escape. Stray bytes are shown in hexadecimal, so different
texts are always shown differently.
-/

namespace Shortfall.Text

/-- Characters with an escape of one letter. -/
private def shortEscape? (c : Char) : Option UInt8 :=
  match c.toNat with
  | 0x07 => some 0x61
  | 0x08 => some 0x62
  | 0x0C => some 0x66
  | 0x0A => some 0x6E
  | 0x0D => some 0x72
  | 0x09 => some 0x74
  | 0x0B => some 0x76
  | _ => none

/-- A character between two quotes of the given kind. -/
private def escaped (quote c : Char) : Text :=
  if c = quote || c = '\\' then 0x5C :: String.utf8EncodeChar c
  else if isPrintable c then String.utf8EncodeChar c
  else match shortEscape? c with
    | some letter => [0x5C, letter]
    | none =>
        if c.toNat < 0x20 || c.toNat = 0x7F then ofString "\\x" ++ ofHex 2 c.toNat
        else if c.toNat < 0x10000 then ofString "\\u" ++ ofHex 4 c.toNat
        else ofString "\\U" ++ ofHex 8 c.toNat

private def quotedPiece : Piece → Text
  | .char c => escaped '"' c
  | .stray byte => ofString "\\x" ++ ofHex 2 byte.toNat

/-- The text between double quotes, with escapes for what cannot be printed. -/
def quoted (text : Text) : Text :=
  0x22 :: (pieces text).flatMap quotedPiece ++ [0x22]

/-- A character between single quotes, with an escape where it cannot be printed. -/
def quotedChar (c : Char) : Text := 0x27 :: escaped '\'' c ++ [0x27]

end Shortfall.Text

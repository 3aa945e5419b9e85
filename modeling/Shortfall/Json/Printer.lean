import Shortfall.Json
import Shortfall.Text.Utf8

/-!
# Writing JSON

Documents are written on one line, or indented by two spaces a level. Texts are written so that
they can stand inside a web page: angle brackets, ampersands and the two Unicode line separators
are escaped. A stray byte is written as the escape of the replacement character.
-/

namespace Shortfall.Json

/-- The escapes that every writer of texts shares, without those for web pages. -/
def plainEscape? (c : Char) : Option Text :=
  if c = '"' then some "\\\""
  else if c = '\\' then some "\\\\"
  else if c = '\n' then some "\\n"
  else if c = '\r' then some "\\r"
  else if c = '\t' then some "\\t"
  else if c.toNat < 0x20 then some ("\\u" ++ Text.ofHex 4 c.toNat)
  else none

def webEscape? (c : Char) : Option Text :=
  match plainEscape? c with
  | some escape => some escape
  | none =>
      if c = '<' || c = '>' || c = '&' || c.toNat = 0x2028 || c.toNat = 0x2029 then
        some ("\\u" ++ Text.ofHex 4 c.toNat)
      else none

/-- A text between quotes, with the given escapes. -/
def quoteWith (escape? : Char → Option Text) (text : Text) : Text :=
  0x22 :: (text.pieces.flatMap fun
    | .char c => (escape? c).getD (String.utf8EncodeChar c)
    | .stray _ => "\\ufffd") ++ [0x22]

def quoteText (text : Text) : Text := quoteWith webEscape? text

mutual

/-- The value on one line, without spaces. -/
def compact : Json → Text
  | null => "null"
  | bool true => "true"
  | bool false => "false"
  | number literal => literal
  | string text => quoteText text
  | array items => "[" ++ Text.joinWith "," (compactItems items) ++ "]"
  | object members => "\x7b" ++ Text.joinWith "," (compactMembers members) ++ "\x7d"

def compactItems : List Json → List Text
  | [] => []
  | item :: rest => compact item :: compactItems rest

def compactMembers : List (Text × Json) → List Text
  | [] => []
  | (name, value) :: rest => (quoteText name ++ ":" ++ compact value) :: compactMembers rest

end

/-- A line break and the indentation of a level. -/
def newLine (level : Nat) : Text := 0x0A :: List.replicate (2 * level) 0x20

mutual

/-- The value over several lines, indented; empty arrays and objects stay on one line. -/
def indented (level : Nat) : Json → Text
  | array (item :: items) =>
      "[" ++ newLine (level + 1)
        ++ Text.joinWith ("," ++ newLine (level + 1)) (indentedItems (level + 1) (item :: items))
        ++ newLine level ++ "]"
  | object (member :: members) =>
      "\x7b" ++ newLine (level + 1)
        ++ Text.joinWith ("," ++ newLine (level + 1))
            (indentedMembers (level + 1) (member :: members))
        ++ newLine level ++ "\x7d"
  | array [] => "[]"
  | object [] => "\x7b\x7d"
  | value => compact value

def indentedItems (level : Nat) : List Json → List Text
  | [] => []
  | item :: rest => indented level item :: indentedItems level rest

def indentedMembers (level : Nat) : List (Text × Json) → List Text
  | [] => []
  | (name, value) :: rest =>
      (quoteText name ++ ": " ++ indented level value) :: indentedMembers level rest

end

end Shortfall.Json

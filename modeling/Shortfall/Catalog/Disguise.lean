import Shortfall.Text.Utf8

/-!
# Disguised text

Text copied from tickets or chat tools may hold characters that change how it reads to a program
without changing how it looks: invisible marks, control characters, and letters of other scripts
that look like Latin ones. `unmask` drops the former and turns the latter into the letters they
look like; a byte that belongs to no character is dropped as well.
-/

namespace Shortfall.Catalog

open Text (Piece)

/-- Zero-width and directional marks, bidirectional controls, tag characters, and control
characters other than tab, line feed and carriage return. -/
def isInvisible (c : Char) : Bool :=
  let point := c.toNat
  (0x200B ≤ point && point ≤ 0x200F) || point = 0xFEFF || point = 0x2060 || point = 0x180E
    || (0x202A ≤ point && point ≤ 0x202E) || (0x2066 ≤ point && point ≤ 0x2069)
    || (0xE0001 ≤ point && point ≤ 0xE007F)
    || (!(point = 0x09 || point = 0x0A || point = 0x0D)
        && (point ≤ 0x1F || (0x7F ≤ point && point ≤ 0x9F)))

/-- Cyrillic and Greek letters with the Latin letters they look like. -/
def lookalikes : List (Nat × Char) := [
  (0x430, 'a'), (0x410, 'A'), (0x412, 'B'), (0x441, 'c'), (0x421, 'C'), (0x435, 'e'),
  (0x415, 'E'), (0x41D, 'H'), (0x456, 'i'), (0x406, 'I'), (0x41A, 'K'), (0x41C, 'M'),
  (0x43E, 'o'), (0x41E, 'O'), (0x440, 'p'), (0x420, 'P'), (0x422, 'T'), (0x445, 'x'),
  (0x425, 'X'), (0x443, 'y'), (0x423, 'Y'), (0x455, 's'), (0x405, 'S'), (0x458, 'j'),
  (0x408, 'J'),
  (0x391, 'A'), (0x392, 'B'), (0x395, 'E'), (0x397, 'H'), (0x399, 'I'), (0x39A, 'K'),
  (0x39C, 'M'), (0x39D, 'N'), (0x39F, 'O'), (0x3BF, 'o'), (0x3A1, 'P'), (0x3A4, 'T'),
  (0x3A7, 'X'), (0x3A5, 'Y'), (0x396, 'Z')]

/-- The Latin letter that a letter of another script looks like. -/
def latinFor? (c : Char) : Option Char := lookalikes.lookup c.toNat

/-- What a piece of disguised text stands for, or nothing when it should not be there. -/
def plain? : Piece → Option Char
  | .stray _ => none
  | .char c => if isInvisible c then none else some ((latinFor? c).getD c)

/-- Whether a piece is part of a disguise. -/
def isMask (piece : Piece) : Bool :=
  match piece with
  | .stray _ => true
  | .char c => isInvisible c || (latinFor? c).isSome

/-- The text without its disguise. -/
def unmask (text : Text) : Text := Text.ofChars (text.pieces.filterMap plain?)

/-- Whether the text hides anything. -/
def isDisguised (text : Text) : Bool := text.pieces.any isMask

end Shortfall.Catalog

import Shortfall.Text.Utf8

/-!
# White space

White space is the Unicode property of that name. Trimming and splitting work on the pieces of
a text, so stray bytes stay where they are.
-/

namespace Shortfall.Text

/-- White space characters. -/
def isBlank (c : Char) : Bool :=
  let point := c.toNat
  (9 ≤ point && point ≤ 13) || point == 0x20 || point == 0x85 || point == 0xA0
    || point == 0x1680 || (0x2000 ≤ point && point ≤ 0x200A)
    || point == 0x2028 || point == 0x2029 || point == 0x202F || point == 0x205F
    || point == 0x3000

def Piece.isBlank (piece : Piece) : Bool := Text.isBlank piece.shown

/-- The text without the white space around it. -/
def trim (text : Text) : Text :=
  let behind := (pieces text).dropWhile Piece.isBlank
  ofPieces (behind.reverse.dropWhile Piece.isBlank).reverse

/-- The longest parts of the text that hold no white space. -/
def words (text : Text) : List Text :=
  (((pieces text).splitOnP Piece.isBlank).filter (!·.isEmpty)).map ofPieces

end Shortfall.Text

import Shortfall.Text

/-!
# Characters of a byte text

The character view of a text. Reading goes from left to right; where the bytes do not start
with the encoding of a character, one byte is set aside as *stray* and reading goes on behind
it. No byte is lost: writing the pieces back gives the text (`bytes_pieces`).

`character?` guesses a code point from the leading bits and accepts it only when its encoding
really begins the text, so over-long forms, surrogates and cut sequences need no cases of their
own.

## Main results

* `character?_eq_some` — a character is read only where its encoding stands.
* `character?_encode_append` — and it is read wherever its encoding stands.
* `bytes_pieces` — the pieces of a text concatenate to it.
-/

namespace Shortfall.Text

/-- A character of a text, or a byte that belongs to none. -/
inductive Piece where
  | char (c : Char)
  | stray (byte : UInt8)
  deriving DecidableEq, Repr

/-- The character shown for a byte that belongs to none. -/
def replacement : Char := '�'

namespace Piece

def bytes : Piece → Text
  | char c => String.utf8EncodeChar c
  | stray byte => [byte]

/-- The character a reader sees: a stray byte reads as the replacement character. -/
def shown : Piece → Char
  | char c => c
  | stray _ => replacement

def isStray : Piece → Bool
  | char _ => false
  | stray _ => true

end Piece

/-- The low six bits of byte `i`, where a text that is too short counts as zero. -/
private def tailBits (text : Text) (i : Nat) : Nat := (text.getD i 0).toNat % 64

/-- The code point the leading bytes would spell. -/
private def spelled (lead : UInt8) (rest : Text) : Nat :=
  if lead < 0x80 then lead.toNat
  else if lead < 0xE0 then lead.toNat % 32 * 64 + tailBits rest 0
  else if lead < 0xF0 then lead.toNat % 16 * 4096 + tailBits rest 0 * 64 + tailBits rest 1
  else lead.toNat % 8 * 262144 + tailBits rest 0 * 4096 + tailBits rest 1 * 64 + tailBits rest 2

/-- The character whose encoding begins the text. -/
def character? : Text → Option Char
  | [] => none
  | lead :: rest =>
      let c := Char.ofNat (spelled lead rest)
      if (String.utf8EncodeChar c).isPrefixOf (lead :: rest) then some c else none

theorem character?_eq_some {text : Text} {c : Char} (h : character? text = some c) :
    String.utf8EncodeChar c <+: text := by
  cases text with
  | nil => simp [character?] at h
  | cons lead rest =>
      simp only [character?] at h
      split at h
      · next hp => cases h; exact List.isPrefixOf_iff_prefix.mp hp
      · cases h

private theorem spelled_encode (c : Char) (rest : Text) :
    ∃ lead tail, String.utf8EncodeChar c = lead :: tail ∧
      spelled lead (tail ++ rest) = c.toNat := by
  have hbound : c.val.toNat < 0x110000 := by
    have hvalid := c.valid
    simp only [UInt32.isValidChar, Nat.isValidChar] at hvalid
    omega
  rw [String.utf8EncodeChar, Char.toNat]
  generalize c.val.toNat = point at hbound
  split
  · refine ⟨_, _, rfl, ?_⟩
    simp [spelled, UInt8.lt_iff_toNat_lt, UInt8.toNat_ofNat']
    grind
  · split
    · refine ⟨_, _, rfl, ?_⟩
      simp [spelled, tailBits, UInt8.lt_iff_toNat_lt, UInt8.toNat_ofNat']
      grind
    · split
      · refine ⟨_, _, rfl, ?_⟩
        simp [spelled, tailBits, UInt8.lt_iff_toNat_lt, UInt8.toNat_ofNat']
        grind
      · refine ⟨_, _, rfl, ?_⟩
        simp [spelled, tailBits, UInt8.lt_iff_toNat_lt, UInt8.toNat_ofNat']
        grind

/-- The encoding of a character reads as that character, whatever follows. -/
theorem character?_encode_append (c : Char) (rest : Text) :
    character? (String.utf8EncodeChar c ++ rest) = some c := by
  obtain ⟨lead, tail, hencode, hspelled⟩ := spelled_encode c rest
  have hstarts : (lead :: tail).isPrefixOf (lead :: (tail ++ rest)) = true :=
    List.isPrefixOf_iff_prefix.mpr (List.prefix_append (lead :: tail) rest)
  rw [hencode, List.cons_append, character?, hspelled, Char.ofNat_toNat, hencode]
  exact if_pos hstarts

/-- The pieces of a text whose first `skip` bytes were read already. -/
def piecesFrom : (skip : Nat) → Text → List Piece
  | _, [] => []
  | skip + 1, _ :: rest => piecesFrom skip rest
  | 0, lead :: rest =>
      match character? (lead :: rest) with
      | some c => .char c :: piecesFrom (c.utf8Size - 1) rest
      | none => .stray lead :: piecesFrom 0 rest

/-- The characters and stray bytes of a text, in order. -/
def pieces (text : Text) : List Piece := piecesFrom 0 text

def ofPieces (ps : List Piece) : Text := ps.flatMap Piece.bytes

theorem ofPieces_piecesFrom (text : Text) (skip : Nat) :
    ofPieces (piecesFrom skip text) = text.drop skip := by
  induction text generalizing skip with
  | nil => cases skip <;> simp [piecesFrom, ofPieces]
  | cons lead rest ih =>
      cases skip with
      | succ skip => simpa [piecesFrom] using ih skip
      | zero =>
          simp only [piecesFrom]
          split
          · next c hc =>
              obtain ⟨tail, htail⟩ := character?_eq_some hc
              have hlen : (String.utf8EncodeChar c).length = c.utf8Size :=
                String.length_utf8EncodeChar c
              have hpos : 0 < c.utf8Size := Char.utf8Size_pos c
              have hrest : rest.drop (c.utf8Size - 1) = tail := by
                have : (lead :: rest).drop c.utf8Size = tail := by
                  rw [← htail, ← hlen, List.drop_left]
                rwa [show c.utf8Size = (c.utf8Size - 1) + 1 by omega, List.drop_succ_cons] at this
              simp [ofPieces, Piece.bytes] at ih ⊢
              rw [ih, hrest, htail]
          · simp [ofPieces, Piece.bytes] at ih ⊢
            simpa using ih 0

/-- **No byte is lost**: the pieces of a text concatenate to it. -/
theorem bytes_pieces (text : Text) : ofPieces (pieces text) = text := by
  simpa [pieces] using ofPieces_piecesFrom text 0

/-- The characters a reader sees. -/
def shown (text : Text) : List Char := (pieces text).map Piece.shown

/-- The number of characters a reader sees. -/
def width (text : Text) : Nat := (pieces text).length

/-- Whether the text is the encoding of a sequence of characters. -/
def isWellFormed (text : Text) : Bool := !(pieces text).any Piece.isStray

/-- The text with every stray byte written as the replacement character. -/
def mend (text : Text) : Text := ofChars text.shown

/-- The well-formed text as a string; stray bytes read as the replacement character. -/
def toString (text : Text) : String := String.ofList text.shown

/-- The text followed by blanks up to `size` characters. -/
def padRight (size : Nat) (text : Text) : Text :=
  text ++ List.replicate (size - text.width) 0x20

end Shortfall.Text

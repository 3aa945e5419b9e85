import Mathlib.Data.List.DropRight
import Shortfall.Text.Blank

/-!
# Texts and their characters

Most of what is done to a text is done to its characters: the text is taken apart, characters are
dropped or changed, and what is left is written down again. Reading back what was written gives the
characters that were written (`pieces_ofChars`), and a text that is the encoding of characters can
be cut between any two of them (`pieces_append`). With stray bytes in it a text can still be
shortened at both ends: a character is read where its encoding stands and nowhere else, so what is
left falls into the same pieces as before (`pieces_ofPieces_of_infix`).

## Main results

* `pieces_ofChars_append`: the characters at the front of a text.
* `isWellFormed_iff`: the well-formed texts are the encodings of characters.
* `pieces_trim`: trimming a text trims its pieces.
-/

namespace Shortfall.Text

theorem character?_eq_some_iff {text : Text} {c : Char} :
    character? text = some c ↔ String.utf8EncodeChar c <+: text := by
  constructor
  · exact character?_eq_some
  · rintro ⟨rest, rfl⟩
    exact character?_encode_append c rest

/-! ## Encoded characters -/

theorem ofChars_append (front back : List Char) :
    ofChars (front ++ back) = ofChars front ++ ofChars back :=
  List.flatMap_append

private theorem piecesFrom_eq_pieces_drop (skip : Nat) (text : Text) :
    piecesFrom skip text = pieces (text.drop skip) := by
  induction text generalizing skip with
  | nil => cases skip <;> rfl
  | cons byte rest ih =>
      cases skip with
      | zero => rfl
      | succ skip => exact ih skip

theorem pieces_encode_append (c : Char) (rest : Text) :
    pieces (String.utf8EncodeChar c ++ rest) = .char c :: pieces rest := by
  have hread := character?_encode_append c rest
  have hlength : (String.utf8EncodeChar c).length = c.utf8Size := String.length_utf8EncodeChar c
  cases hencode : String.utf8EncodeChar c with
  | nil =>
      rw [hencode, List.length_nil] at hlength
      exact absurd hlength.symm (Nat.ne_of_gt (Char.utf8Size_pos c))
  | cons lead tail =>
      rw [hencode, List.cons_append] at hread
      rw [hencode, List.length_cons] at hlength
      rw [List.cons_append, pieces, piecesFrom, hread]
      show Piece.char c :: piecesFrom (c.utf8Size - 1) (tail ++ rest) = _
      rw [piecesFrom_eq_pieces_drop, ← hlength, Nat.add_sub_cancel, List.drop_left]

/-- The characters at the front of a text are read as they were written. -/
theorem pieces_ofChars_append (chars : List Char) (rest : Text) :
    pieces (ofChars chars ++ rest) = chars.map .char ++ pieces rest := by
  induction chars with
  | nil => rfl
  | cons c chars ih =>
      rw [ofChars, List.flatMap_cons, ← ofChars, List.append_assoc, pieces_encode_append, ih,
        List.map_cons, List.cons_append]

@[simp] theorem pieces_ofChars (chars : List Char) :
    pieces (ofChars chars) = chars.map Piece.char := by
  have hread := pieces_ofChars_append chars []
  rw [List.append_nil] at hread
  rw [hread]
  exact List.append_nil _

@[simp] theorem shown_ofChars (chars : List Char) : (ofChars chars).shown = chars := by
  rw [shown, pieces_ofChars, List.map_map]
  exact List.map_id chars

@[simp] theorem shown_mend (text : Text) : text.mend.shown = text.shown :=
  shown_ofChars text.shown

theorem mend_eq_nil_iff {text : Text} : text.mend = [] ↔ text = [] := by
  constructor
  · intro h
    have hshown : text.shown = [] := by rw [← shown_mend, h]; rfl
    rw [← bytes_pieces text, List.map_eq_nil_iff.mp hshown]
    rfl
  · rintro rfl
    rfl

/-- A character has one byte below 128, or bytes from 128 on. -/
theorem encode_cases (c : Char) :
    (c.toNat < 128 ∧ String.utf8EncodeChar c = [UInt8.ofNat c.toNat]) ∨
      (128 ≤ c.toNat ∧ ∀ byte ∈ String.utf8EncodeChar c, 128 ≤ byte.toNat) := by
  rw [String.utf8EncodeChar, Char.toNat]
  generalize c.val.toNat = point
  split
  · left
    exact ⟨by omega, rfl⟩
  · right
    refine ⟨by omega, ?_⟩
    split
    · simp only [List.forall_mem_cons, UInt8.toNat_ofNat']
      exact ⟨by omega, by omega, by simp⟩
    · split
      · simp only [List.forall_mem_cons, UInt8.toNat_ofNat']
        exact ⟨by omega, by omega, by omega, by simp⟩
      · simp only [List.forall_mem_cons, UInt8.toNat_ofNat']
        exact ⟨by omega, by omega, by omega, by omega, by simp⟩

/-- A change of bytes that does the same to the bytes of each character as a change of characters
does the same to a text. -/
theorem map_ofChars {f : UInt8 → UInt8} {g : Char → Char}
    (h : ∀ c, (String.utf8EncodeChar c).map f = String.utf8EncodeChar (g c)) (chars : List Char) :
    (ofChars chars).map f = ofChars (chars.map g) := by
  rw [ofChars, ofChars, List.map_flatMap, List.flatMap_map]
  exact congrArg chars.flatMap (funext h)

/-- Replacing two characters below 128 by a third one, in a text and in its bytes. -/
theorem map_encode_replace {a b x : Char} (ha : a.toNat < 128) (hb : b.toNat < 128)
    (hx : x.toNat < 128) (c : Char) :
    (String.utf8EncodeChar c).map (fun byte =>
        if byte = UInt8.ofNat a.toNat || byte = UInt8.ofNat b.toNat then UInt8.ofNat x.toNat
        else byte) =
      String.utf8EncodeChar (if c = a || c = b then x else c) := by
  have hbyte : ∀ d : Char, d.toNat < 128 → (UInt8.ofNat d.toNat).toNat = d.toNat := by
    intro d hd
    rw [UInt8.toNat_ofNat']
    omega
  have hencode : ∀ d : Char, d.toNat < 128 → String.utf8EncodeChar d = [UInt8.ofNat d.toNat] := by
    intro d hd
    rcases encode_cases d with ⟨_, h⟩ | ⟨hlarge, _⟩
    · exact h
    · omega
  rcases encode_cases c with ⟨hc, h⟩ | ⟨hc, hlarge⟩
  · have hsame : ∀ d : Char, d.toNat < 128 →
        (UInt8.ofNat c.toNat = UInt8.ofNat d.toNat ↔ c = d) := by
      intro d hd
      rw [← UInt8.toNat_inj, hbyte c hc, hbyte d hd, Char.toNat_inj]
    simp only [h, List.map_cons, List.map_nil, hsame a ha, hsame b hb]
    split
    · rw [hencode x hx]
    · exact h.symm
  · have hother : ∀ d : Char, d.toNat < 128 → c ≠ d := by
      rintro d hd rfl
      omega
    have hkept : ∀ byte ∈ String.utf8EncodeChar c, ∀ d : Char, d.toNat < 128 →
        byte ≠ UInt8.ofNat d.toNat := by
      rintro byte hmem d hd rfl
      have hbound := hlarge _ hmem
      rw [hbyte d hd] at hbound
      omega
    rw [if_neg (by simp [hother a ha, hother b hb])]
    refine (List.map_congr_left fun byte hmem => ?_).trans (List.map_id _)
    rw [if_neg (by simp [hkept byte hmem a ha, hkept byte hmem b hb])]
    rfl

/-! ## Well-formed texts -/

theorem isWellFormed_ofChars (chars : List Char) : (ofChars chars).isWellFormed = true := by
  simp [isWellFormed, Piece.isStray]

private theorem map_char_shown {ps : List Piece} (h : ps.any Piece.isStray = false) :
    (ps.map Piece.shown).map Piece.char = ps := by
  induction ps with
  | nil => rfl
  | cons piece rest ih =>
      rw [List.any_cons, Bool.or_eq_false_iff] at h
      rw [List.map_cons, List.map_cons, ih h.2]
      cases piece with
      | char c => rfl
      | stray byte => cases h.1

/-- The well-formed texts are the encodings of characters. -/
theorem isWellFormed_iff {text : Text} :
    text.isWellFormed = true ↔ ∃ chars, text = ofChars chars := by
  constructor
  · intro h
    refine ⟨text.shown, ?_⟩
    have hpieces : (text.shown).map Piece.char = pieces text :=
      map_char_shown (by simpa [isWellFormed] using h)
    calc text = ofPieces (pieces text) := (bytes_pieces text).symm
      _ = ofPieces (pieces (ofChars text.shown)) := by rw [pieces_ofChars, hpieces]
      _ = ofChars text.shown := bytes_pieces _
  · rintro ⟨chars, rfl⟩
    exact isWellFormed_ofChars chars

/-- A text can be cut behind a well-formed front. -/
theorem pieces_append {front : Text} (h : front.isWellFormed = true) (back : Text) :
    pieces (front ++ back) = pieces front ++ pieces back := by
  obtain ⟨chars, rfl⟩ := isWellFormed_iff.mp h
  rw [pieces_ofChars_append, pieces_ofChars]

/-! ## Shortened texts -/

theorem pieces_stray_cons {byte : UInt8} {rest : Text} (h : character? (byte :: rest) = none) :
    pieces (byte :: rest) = .stray byte :: pieces rest := by
  rw [pieces, piecesFrom, h]
  rfl

/-- A byte that begins no character of a text begins none of a shorter one. -/
theorem character?_eq_none_of_shorter {front text : Text} (hfront : front <+: text)
    (h : character? text = none) : character? front = none := by
  rw [Option.eq_none_iff_forall_ne_some] at h ⊢
  intro c hc
  exact h c (character?_eq_some_iff.mpr ((character?_eq_some_iff.mp hc).trans hfront))

theorem character?_of_pieces_eq_stray {byte : UInt8} {rest : Text} {ps : List Piece}
    (h : pieces (byte :: rest) = .stray byte :: ps) : character? (byte :: rest) = none := by
  cases hread : character? (byte :: rest) with
  | none => rfl
  | some c =>
      rw [pieces, piecesFrom, hread] at h
      exact absurd (List.cons.inj h).1 (by simp)

/-- The pieces that a text falls into, without the first one. -/
theorem pieces_ofPieces_of_cons {piece : Piece} {ps : List Piece}
    (h : pieces (ofPieces (piece :: ps)) = piece :: ps) : pieces (ofPieces ps) = ps := by
  cases piece with
  | char c =>
      have hread := pieces_encode_append c (ofPieces ps)
      exact (List.cons.inj (hread.symm.trans h)).2
  | stray byte =>
      have hstray : pieces (byte :: ofPieces ps) = .stray byte :: ps := h
      have hread := pieces_stray_cons (character?_of_pieces_eq_stray hstray)
      exact (List.cons.inj (hread.symm.trans hstray)).2

theorem pieces_ofPieces_of_append_right {front back : List Piece}
    (h : pieces (ofPieces (front ++ back)) = front ++ back) : pieces (ofPieces back) = back := by
  induction front with
  | nil => exact h
  | cons piece front ih => exact ih (pieces_ofPieces_of_cons h)

private theorem pieces_ofPieces_of_append_left {front back : List Piece}
    (h : pieces (ofPieces (front ++ back)) = front ++ back) : pieces (ofPieces front) = front := by
  induction front with
  | nil => rfl
  | cons piece front ih =>
      have hfront := ih (pieces_ofPieces_of_cons h)
      cases piece with
      | char c =>
          have hread := pieces_encode_append c (ofPieces front)
          rwa [hfront] at hread
      | stray byte =>
          have hstray :
              pieces (byte :: ofPieces (front ++ back)) = .stray byte :: (front ++ back) := h
          -- What the shorter text lacks could only have helped to read a character here.
          have hshorter : byte :: ofPieces front <+: byte :: ofPieces (front ++ back) :=
            ⟨ofPieces back, by simp [ofPieces]⟩
          have hread := pieces_stray_cons
            (character?_eq_none_of_shorter hshorter (character?_of_pieces_eq_stray hstray))
          rwa [hfront] at hread

/-- Consecutive pieces of a text, written down again, fall into the same pieces. -/
theorem pieces_ofPieces_of_infix {ps : List Piece} {text : Text} (h : ps <:+: pieces text) :
    pieces (ofPieces ps) = ps := by
  obtain ⟨front, back, hpieces⟩ := h
  have hwhole : pieces (ofPieces (front ++ ps ++ back)) = front ++ ps ++ back := by
    rw [hpieces, bytes_pieces]
  exact pieces_ofPieces_of_append_right (pieces_ofPieces_of_append_left hwhole)

theorem pieces_trim (text : Text) :
    pieces text.trim = ((pieces text).dropWhile Piece.isBlank).rdropWhile Piece.isBlank := by
  have hinfix : ((pieces text).dropWhile Piece.isBlank).rdropWhile Piece.isBlank <:+:
      pieces text :=
    (List.rdropWhile_prefix _ _).isInfix.trans (List.dropWhile_suffix _).isInfix
  exact pieces_ofPieces_of_infix hinfix

theorem head?_pieces_trim (text : Text) :
    ∀ piece ∈ (pieces text.trim).head?, piece.isBlank = false := by
  intro piece hpiece
  rw [pieces_trim] at hpiece
  obtain ⟨rest, hrest⟩ := List.rdropWhile_prefix Piece.isBlank
    ((pieces text).dropWhile Piece.isBlank)
  have hhead : ((pieces text).dropWhile Piece.isBlank).head? = some piece := by
    rw [← hrest, List.head?_append, Option.mem_def.mp hpiece, Option.some_or]
  have hkept := List.head?_dropWhile_not Piece.isBlank (pieces text)
  rw [hhead] at hkept
  exact hkept

theorem getLast?_pieces_trim (text : Text) :
    ∀ piece ∈ (pieces text.trim).getLast?, piece.isBlank = false := by
  intro piece hpiece
  rw [pieces_trim] at hpiece
  obtain ⟨hne, hlast⟩ := List.mem_getLast?_eq_getLast hpiece
  rw [hlast]
  simpa using List.rdropWhile_last_not Piece.isBlank _ hne

/-- A text that neither begins nor ends with white space is not changed by trimming. -/
theorem trim_eq_self {text : Text} (hfirst : ∀ piece ∈ (pieces text).head?, piece.isBlank = false)
    (hlast : ∀ piece ∈ (pieces text).getLast?, piece.isBlank = false) : text.trim = text := by
  have hfront : (pieces text).dropWhile Piece.isBlank = pieces text := by
    cases hpieces : pieces text with
    | nil => rfl
    | cons piece rest =>
        rw [List.dropWhile_cons_of_neg]
        simpa using hfirst piece (by rw [hpieces]; rfl)
  have hback : (pieces text).rdropWhile Piece.isBlank = pieces text := by
    rw [List.rdropWhile_eq_self_iff]
    intro hne
    simpa using hlast _ (List.getLast?_eq_some_getLast hne)
  calc text.trim = ofPieces (pieces text.trim) := (bytes_pieces _).symm
    _ = ofPieces (pieces text) := by rw [pieces_trim, hfront, hback]
    _ = text := bytes_pieces text

end Shortfall.Text

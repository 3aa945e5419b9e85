import Shortfall.Proofs.Text.Characters
import Shortfall.Text.Case

/-!
# Words inside a text

A text is searched byte by byte, but trimmed and changed to another case character by character. To
say what becomes of a word inside it, one has to know that the word stands there as characters. It
does, also between stray bytes: no character goes on into the first byte of another one, so a text
can be cut in front of every character (`pieces_append_of_lead`).

## Main results

* `pieces_append_ofChars_append`: a word inside a text is read as it was written.
* `containsAnyCase_iff`: a text contains a word in some case, when its lower case contains the word.
* `infix_shown_trim`: trimming does not reach a word without white space.
-/

namespace Shortfall.Text

/-! ## Where a text can be cut -/

/-- Whether a byte can stand in an encoding behind the first one. -/
def isTrailing (byte : UInt8) : Bool := 0x80 ≤ byte && byte < 0xC0

/-- The first byte of an encoding can be told from those behind it. -/
theorem encode_eq_cons (c : Char) :
    ∃ lead tail, String.utf8EncodeChar c = lead :: tail ∧ isTrailing lead = false ∧
      ∀ byte ∈ tail, isTrailing byte = true := by
  simp only [isTrailing, Bool.and_eq_true, Bool.and_eq_false_iff, decide_eq_true_eq,
    decide_eq_false_iff_not, UInt8.le_iff_toNat_le, UInt8.lt_iff_toNat_lt]
  rw [String.utf8EncodeChar]
  generalize c.val.toNat = point
  split
  · refine ⟨_, _, rfl, ?_⟩
    simp [UInt8.toNat_ofNat']
    omega
  · split
    · refine ⟨_, _, rfl, ?_⟩
      simp [UInt8.toNat_ofNat']
      omega
    · split
      · refine ⟨_, _, rfl, ?_⟩
        simp [UInt8.toNat_ofNat']
        omega
      · refine ⟨_, _, rfl, ?_⟩
        simp [UInt8.toNat_ofNat']
        omega

section Cut

variable {back : Text} (hback : ∀ byte ∈ back.head?, isTrailing byte = false)

include hback

/-- A byte that begins no character of a text begins none of a longer one, if what comes behind
goes on with a character of its own. -/
theorem character?_append_of_lead {byte : UInt8} {rest : Text}
    (h : character? (byte :: rest) = none) : character? (byte :: (rest ++ back)) = none := by
  rw [Option.eq_none_iff_forall_ne_some] at h ⊢
  intro c hc
  have hlonger : String.utf8EncodeChar c <+: byte :: rest ++ back := character?_eq_some_iff.mp hc
  obtain ⟨lead, tail, hencode, _, htail⟩ := encode_eq_cons c
  rw [hencode, List.cons_append, List.cons_prefix_cons] at hlonger
  obtain ⟨rfl, hlonger⟩ := hlonger
  obtain ⟨behind, hbehind⟩ := hlonger
  rcases List.append_eq_append_iff.mp hbehind with ⟨more, hmore, _⟩ | ⟨more, hmore, hover⟩
  · refine h c (character?_eq_some_iff.mpr ?_)
    rw [hencode, hmore]
    exact List.prefix_append (lead :: tail) more
  · cases more with
    | nil =>
        refine h c (character?_eq_some_iff.mpr ⟨[], ?_⟩)
        rw [List.append_nil, hencode, hmore, List.append_nil]
    | cons next more =>
        have htrailing := htail next (by simp [hmore])
        rw [hback next (by simp [hover])] at htrailing
        cases htrailing

private theorem pieces_ofPieces_append {ps : List Piece} (h : pieces (ofPieces ps) = ps) :
    pieces (ofPieces ps ++ back) = ps ++ pieces back := by
  induction ps with
  | nil => rfl
  | cons piece rest ih =>
      have hrest := ih (pieces_ofPieces_of_cons h)
      rw [ofPieces, List.flatMap_cons, ← ofPieces, List.append_assoc]
      cases piece with
      | char c =>
          show pieces (String.utf8EncodeChar c ++ (ofPieces rest ++ back)) = _
          rw [pieces_encode_append, hrest, List.cons_append]
      | stray byte =>
          have hstray : pieces (byte :: ofPieces rest) = .stray byte :: rest := h
          have hnone := character?_append_of_lead hback (character?_of_pieces_eq_stray hstray)
          show pieces (byte :: (ofPieces rest ++ back)) = _
          rw [pieces_stray_cons hnone, hrest, List.cons_append]

/-- **A text can be cut in front of every character**, whatever stands before it. -/
theorem pieces_append_of_lead (front : Text) :
    pieces (front ++ back) = pieces front ++ pieces back := by
  have hfront : pieces (ofPieces (pieces front)) = pieces front := by rw [bytes_pieces]
  have hcut := pieces_ofPieces_append hback hfront
  rwa [bytes_pieces] at hcut

end Cut

private theorem head?_ofChars_append {chars : List Char} (hchars : chars ≠ []) (back : Text) :
    ∀ byte ∈ (ofChars chars ++ back).head?, isTrailing byte = false := by
  intro byte hbyte
  cases chars with
  | nil => exact absurd rfl hchars
  | cons c rest =>
      obtain ⟨lead, tail, hencode, hlead, _⟩ := encode_eq_cons c
      rw [ofChars, List.flatMap_cons, hencode] at hbyte
      have heq : lead = byte := by simpa using hbyte
      rw [← heq, hlead]

/-- The characters of a word inside a text are read as they were written. -/
theorem pieces_append_ofChars_append {chars : List Char} (hchars : chars ≠ [])
    (front back : Text) :
    pieces (front ++ (ofChars chars ++ back)) =
      pieces front ++ (chars.map .char ++ pieces back) := by
  rw [pieces_append_of_lead (head?_ofChars_append hchars back), pieces_ofChars_append]

/-- A word that occurs in a text occurs among its pieces. -/
theorem infix_pieces_of_ofChars {word : List Char} {text : Text} (h : ofChars word <:+: text) :
    word.map Piece.char <:+: pieces text := by
  by_cases hword : word = []
  · rw [hword]
    exact List.nil_infix
  · obtain ⟨front, back, rfl⟩ := h
    refine ⟨pieces front, pieces back, ?_⟩
    rw [List.append_assoc, List.append_assoc, pieces_append_ofChars_append hword]

private theorem infix_shown_of_pieces {word : List Char} {text : Text}
    (h : word.map Piece.char <:+: pieces text) : word <:+: text.shown := by
  have hmapped := h.map Piece.shown
  rwa [List.map_map, show Piece.shown ∘ Piece.char = id from rfl, List.map_id] at hmapped

private theorem infix_shown_of_ofChars {word : List Char} {text : Text}
    (h : ofChars word <:+: text) : word <:+: text.shown :=
  infix_shown_of_pieces (infix_pieces_of_ofChars h)

theorem ofChars_infix_ofChars {word chars : List Char} (h : word <:+: chars) :
    ofChars word <:+: ofChars chars := by
  obtain ⟨front, back, rfl⟩ := h
  exact ⟨ofChars front, ofChars back, by rw [ofChars_append, ofChars_append]⟩

/-! ## Words in any case -/

/-- The text contains the word, written in capital letters, small letters or both. -/
def ContainsAnyCase (text word : Text) : Prop :=
  ∃ front found back : Text, text = front ++ (found ++ back) ∧ found.lower = word

/-- A text in which no replacement is seen has no stray bytes. -/
theorem eq_ofChars_of_not_mem_shown {text : Text} (h : replacement ∉ text.shown) :
    text = ofChars text.shown := by
  have hstray : (pieces text).any Piece.isStray = false := by
    rw [List.any_eq_false]
    intro piece hpiece hstray
    cases piece with
    | char c => cases hstray
    | stray byte => exact h (List.mem_map.mpr ⟨.stray byte, hpiece, rfl⟩)
  obtain ⟨chars, hchars⟩ := isWellFormed_iff.mp (by rw [isWellFormed, hstray]; rfl)
  rw [hchars, shown_ofChars]

/-- **A text contains a word in some case when its lower case contains the word.** -/
theorem containsAnyCase_iff {text : Text} {word : List Char} (hword : replacement ∉ word) :
    text.ContainsAnyCase (ofChars word) ↔ ofChars word <:+: text.lower := by
  constructor
  · rintro ⟨front, found, back, rfl, hlower⟩
    have hshown : found.shown.map lowerChar = word := by
      rw [← shown_ofChars (found.shown.map lowerChar), ← lower, hlower, shown_ofChars]
    have hreplacement : lowerChar replacement = replacement := by decide
    have hfound : found = ofChars found.shown := by
      refine eq_ofChars_of_not_mem_shown fun hmem => hword ?_
      rw [← hshown, ← hreplacement]
      exact List.mem_map_of_mem hmem
    have hinside : found.shown <:+: (front ++ (found ++ back)).shown :=
      infix_shown_of_ofChars (by rw [← hfound, ← List.append_assoc]; exact ⟨front, back, rfl⟩)
    have hmapped := hinside.map lowerChar
    rw [hshown] at hmapped
    exact ofChars_infix_ofChars hmapped
  · intro hinside
    have hmapped : word <:+: (pieces text).map (lowerChar ∘ Piece.shown) := by
      have hshown := infix_shown_of_ofChars hinside
      rwa [lower, shown_ofChars, shown, List.map_map] at hshown
    obtain ⟨front, back, hpieces⟩ := hmapped
    obtain ⟨start, behind, hstart, hfront, _⟩ := List.map_eq_append_iff.mp hpieces.symm
    obtain ⟨before, found, hbefore, _, hfound⟩ := List.map_eq_append_iff.mp hfront
    refine ⟨ofPieces before, ofPieces found, ofPieces behind, ?_, ?_⟩
    · rw [← bytes_pieces text, hstart, hbefore]
      simp only [ofPieces, List.flatMap_append, List.append_assoc]
    · have hinfix : found <:+: pieces text := ⟨before, behind, by rw [hstart, hbefore]⟩
      rw [lower, shown, pieces_ofPieces_of_infix hinfix, List.map_map, hfound]

/-! ## Words in a trimmed text -/

private theorem infix_dropWhile {α : Type} {p : α → Bool} {word text : List α} (h : word <:+: text)
    (hword : ∀ x ∈ word, p x = false) : word <:+: text.dropWhile p := by
  induction text with
  | nil => exact h
  | cons first rest ih =>
      rw [List.dropWhile_cons]
      split
      · next hfirst =>
          rcases List.infix_cons_iff.mp h with hstarts | hinside
          · cases word with
            | nil => exact List.nil_infix
            | cons x more =>
                rw [(List.cons_prefix_cons.mp hstarts).1] at hword
                rw [hword first List.mem_cons_self] at hfirst
                cases hfirst
          · exact ih hinside
      · exact h

private theorem infix_rdropWhile {α : Type} {p : α → Bool} {word text : List α} (h : word <:+: text)
    (hword : ∀ x ∈ word, p x = false) : word <:+: text.rdropWhile p := by
  have hreversed : word.reverse <:+: text.reverse.dropWhile p :=
    infix_dropWhile (List.reverse_infix.mpr h) fun x hx => hword x (List.mem_reverse.mp hx)
  rw [List.rdropWhile, ← List.reverse_infix, List.reverse_reverse]
  exact hreversed

/-- Trimming does not reach a word without white space. -/
theorem infix_shown_trim {word : List Char} {text : Text} (h : ofChars word <:+: text)
    (hword : word.any isBlank = false) : word <:+: text.trim.shown := by
  have hpieces : ∀ piece ∈ word.map Piece.char, piece.isBlank = false := by
    intro piece hpiece
    obtain ⟨c, hc, rfl⟩ := List.mem_map.mp hpiece
    exact Bool.eq_false_iff.mpr (List.any_eq_false.mp hword c hc)
  apply infix_shown_of_pieces
  rw [pieces_trim]
  exact infix_rdropWhile (infix_dropWhile (infix_pieces_of_ofChars h) hpieces) hpieces

end Shortfall.Text

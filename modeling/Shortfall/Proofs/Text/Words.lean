import Mathlib.Data.List.Chain
import Shortfall.Proofs.Text.Characters

/-!
# Words with single spaces between them

A text that is taken apart into its words and put together again has one space where there was
white space between words, and none around them. `squeeze` says this in one pass over the
characters: white space leaves a space behind if a word came before it and another one comes later.
Said in this way, it is seen what becomes of a part of a text. More text on either side lets its
first and last word grow and adds words beyond them, but the words of the part and the spaces
between them stay (`squeeze_infix_append`). And it is seen what squeezing leaves as it is: words
that have single spaces between them and nothing around them (`IsSpaced`).

## Main results

* `joinWith_words`: joining the words of a text with spaces squeezes its characters.
* `squeeze_infix_append`: what is left of a part of a text is a part of what is left of the text.
* `squeeze_map_trim`: white space around a text leaves nothing.
* `isSpaced_squeeze`, `squeeze_eq_self`: what squeezing leaves, and leaves as it is.
-/

namespace Shortfall.Text

/-! ## Squeezed characters -/

/-- The characters with one space in the place of the white space between words, and without the
white space around them. -/
def squeeze : List Char → List Char
  | [] => []
  | c :: chars =>
      if isBlank c then squeeze chars
      else if chars.head?.any isBlank && !(squeeze chars).isEmpty then c :: ' ' :: squeeze chars
      else c :: squeeze chars

/-- The space that comes behind a word, if white space and then another word do. -/
def space (chars : List Char) : List Char :=
  if chars.head?.any isBlank && !(squeeze chars).isEmpty then [' '] else []

section Squeeze

variable {c : Char} {chars front back blanks : List Char}

theorem squeeze_cons_of_isBlank (h : isBlank c = true) :
    squeeze (c :: chars) = squeeze chars := by
  rw [squeeze, if_pos h]

theorem squeeze_cons_of_not_isBlank (h : ¬isBlank c = true) :
    squeeze (c :: chars) = c :: (space chars ++ squeeze chars) := by
  rw [squeeze, if_neg h, space]
  split <;> rfl

theorem space_of_squeeze_eq_nil (h : squeeze chars = []) : space chars = [] := by
  rw [space, h]
  simp

private theorem space_of_head (hhead : chars.head?.all isBlank = true) (h : squeeze chars ≠ []) :
    space chars = [' '] := by
  cases chars with
  | nil => exact absurd rfl h
  | cons d chars =>
      have hd : isBlank d = true := hhead
      simp [space, hd, h]

private theorem space_cons_of_not_isBlank (h : ¬isBlank c = true) : space (c :: chars) = [] := by
  simp [space, h]

private theorem squeeze_suffix_append (front back : List Char) :
    squeeze back <:+ squeeze (front ++ back) := by
  induction front with
  | nil => exact List.suffix_rfl
  | cons c front ih =>
      rw [List.cons_append]
      by_cases hblank : isBlank c = true
      · rwa [squeeze_cons_of_isBlank hblank]
      · rw [squeeze_cons_of_not_isBlank hblank, ← List.cons_append]
        exact ih.trans (List.suffix_append _ _)

private theorem space_append (h : squeeze front ≠ [])
    (hfront : squeeze front <+: squeeze (front ++ back)) : space (front ++ back) = space front := by
  have hwhole : squeeze (front ++ back) ≠ [] := by
    intro hempty
    rw [hempty, List.prefix_nil] at hfront
    exact h hfront
  cases front with
  | nil => exact absurd rfl h
  | cons c front =>
      rw [space, space, List.isEmpty_eq_false_iff.mpr h, List.isEmpty_eq_false_iff.mpr hwhole]
      rfl

private theorem squeeze_prefix_append (front back : List Char) :
    squeeze front <+: squeeze (front ++ back) := by
  induction front with
  | nil => exact List.nil_prefix
  | cons c front ih =>
      rw [List.cons_append]
      by_cases hblank : isBlank c = true
      · rwa [squeeze_cons_of_isBlank hblank, squeeze_cons_of_isBlank hblank]
      · rw [squeeze_cons_of_not_isBlank hblank, squeeze_cons_of_not_isBlank hblank,
          List.cons_prefix_cons]
        refine ⟨rfl, ?_⟩
        by_cases hempty : squeeze front = []
        · rw [space_of_squeeze_eq_nil hempty, hempty]
          exact List.nil_prefix
        · rw [space_append hempty ih, List.prefix_append_right_inj]
          exact ih

/-- **What is left of a part of a text is a part of what is left of the text.** -/
theorem squeeze_infix_append (front chars back : List Char) :
    squeeze chars <:+: squeeze (front ++ (chars ++ back)) :=
  (squeeze_prefix_append chars back).isInfix.trans (squeeze_suffix_append front _).isInfix

/-! ## White space around a text -/

private theorem squeeze_blanks_append (h : ∀ c ∈ blanks, isBlank c = true) (back : List Char) :
    squeeze (blanks ++ back) = squeeze back := by
  induction blanks with
  | nil => rfl
  | cons c blanks ih =>
      rw [List.forall_mem_cons] at h
      rw [List.cons_append, squeeze_cons_of_isBlank h.1, ih h.2]

private theorem squeeze_append_blanks (h : ∀ c ∈ blanks, isBlank c = true) (front : List Char) :
    squeeze (front ++ blanks) = squeeze front := by
  induction front with
  | nil =>
      have hblanks := squeeze_blanks_append h []
      rwa [List.append_nil] at hblanks
  | cons c front ih =>
      rw [List.cons_append]
      by_cases hblank : isBlank c = true
      · rw [squeeze_cons_of_isBlank hblank, squeeze_cons_of_isBlank hblank, ih]
      · have hspace : space (front ++ blanks) = space front := by
          by_cases hempty : squeeze front = []
          · rw [space_of_squeeze_eq_nil hempty, space_of_squeeze_eq_nil (ih.trans hempty)]
          · exact space_append hempty (squeeze_prefix_append front blanks)
        rw [squeeze_cons_of_not_isBlank hblank, squeeze_cons_of_not_isBlank hblank, hspace, ih]

theorem trim_ofChars (chars : List Char) :
    (ofChars chars).trim = ofChars ((chars.dropWhile isBlank).rdropWhile isBlank) := by
  have hblank : Piece.isBlank ∘ Piece.char = isBlank := rfl
  have hpieces : pieces (ofChars chars).trim =
      pieces (ofChars ((chars.dropWhile isBlank).rdropWhile isBlank)) := by
    rw [pieces_trim, pieces_ofChars, pieces_ofChars, List.rdropWhile, List.dropWhile_map,
      ← List.map_reverse, List.dropWhile_map, ← List.map_reverse, hblank, List.rdropWhile]
  rw [← bytes_pieces (ofChars chars).trim, hpieces, bytes_pieces]

/-- White space around a text leaves nothing, also after a change of characters that keeps white
space. -/
theorem squeeze_map_trim {f : Char → Char} (h : ∀ c, isBlank c = true → isBlank (f c) = true)
    (chars : List Char) :
    squeeze (((chars.dropWhile isBlank).rdropWhile isBlank).map f) = squeeze (chars.map f) := by
  have hmap : ∀ blanks : List Char, (∀ c ∈ blanks, isBlank c = true) →
      ∀ c ∈ blanks.map f, isBlank c = true := by
    intro blanks hblanks c hc
    obtain ⟨given, hgiven, rfl⟩ := List.mem_map.mp hc
    exact h given (hblanks given hgiven)
  have hlead : ∀ c ∈ chars.takeWhile isBlank, isBlank c = true := fun c hc =>
    List.mem_takeWhile_imp hc
  have htail : ∀ c ∈ (chars.dropWhile isBlank).rtakeWhile isBlank, isBlank c = true := fun c hc =>
    List.mem_rtakeWhile_imp hc
  have hfront : chars.takeWhile isBlank ++ chars.dropWhile isBlank = chars :=
    List.takeWhile_append_dropWhile
  have hback : (chars.dropWhile isBlank).rdropWhile isBlank ++
      (chars.dropWhile isBlank).rtakeWhile isBlank = chars.dropWhile isBlank :=
    List.rdropWhile_append_rtakeWhile
  calc squeeze (((chars.dropWhile isBlank).rdropWhile isBlank).map f)
      = squeeze ((chars.dropWhile isBlank).map f) := by
        conv_rhs => rw [← hback, List.map_append, squeeze_append_blanks (hmap _ htail)]
    _ = squeeze (chars.map f) := by
        conv_rhs => rw [← hfront, List.map_append, squeeze_blanks_append (hmap _ hlead)]

end Squeeze

/-! ## What squeezing leaves as it is -/

/-- Words with single spaces between them: white space is a plain space, stands neither at the front
nor at the end, and never next to white space. -/
structure IsSpaced (chars : List Char) : Prop where
  plain : ∀ c ∈ chars, isBlank c = true → c = ' '
  head : ∀ c ∈ chars.head?, isBlank c = false
  last : ∀ c ∈ chars.getLast?, isBlank c = false
  apart : chars.IsChain fun c d => isBlank c = false ∨ isBlank d = false

section Spaced

variable {c : Char} {chars : List Char}

private theorem isSpaced_nil : IsSpaced [] where
  plain _ hc := absurd hc List.not_mem_nil
  head := by simp
  last := by simp
  apart := .nil

/-- A word grows by a character in front of it. -/
theorem IsSpaced.cons (hc : isBlank c = false) (h : IsSpaced chars) : IsSpaced (c :: chars) where
  plain := by
    rw [List.forall_mem_cons]
    exact ⟨fun hblank => absurd (hc.symm.trans hblank) Bool.false_ne_true, h.plain⟩
  head := by simpa using hc
  last := by
    intro d hd
    cases chars with
    | nil =>
        rw [List.getLast?_singleton, Option.mem_some] at hd
        rw [← hd, hc]
    | cons e chars =>
        rw [List.getLast?_cons_cons] at hd
        exact h.last d hd
  apart := List.isChain_cons.mpr ⟨fun _ _ => .inl hc, h.apart⟩

/-- A word of one character, before other words. -/
theorem IsSpaced.cons_space (hc : isBlank c = false) (h : IsSpaced chars) (hne : chars ≠ []) :
    IsSpaced (c :: ' ' :: chars) where
  plain := by
    rw [List.forall_mem_cons, List.forall_mem_cons]
    exact ⟨fun hblank => absurd (hc.symm.trans hblank) Bool.false_ne_true, fun _ => rfl, h.plain⟩
  head := by simpa using hc
  last := by
    intro d hd
    obtain ⟨e, rest, rfl⟩ := List.exists_cons_of_ne_nil hne
    rw [List.getLast?_cons_cons, List.getLast?_cons_cons] at hd
    exact h.last d hd
  apart := by
    refine List.isChain_cons.mpr ⟨fun _ _ => .inl hc, List.isChain_cons.mpr ⟨?_, h.apart⟩⟩
    intro d hd
    exact .inr (h.head d hd)

theorem isSpaced_squeeze (chars : List Char) : IsSpaced (squeeze chars) := by
  induction chars with
  | nil => exact isSpaced_nil
  | cons c chars ih =>
      by_cases hblank : isBlank c = true
      · rwa [squeeze_cons_of_isBlank hblank]
      · rw [squeeze, if_neg hblank]
        rw [Bool.not_eq_true] at hblank
        split
        · next hspace =>
            simp only [Bool.and_eq_true, Bool.not_eq_true', List.isEmpty_eq_false_iff] at hspace
            exact ih.cons_space hblank hspace.2
        · exact ih.cons hblank

/-- Where a word begins, characters can be cut. -/
theorem IsSpaced.of_append (front : List Char) (h : IsSpaced (front ++ chars))
    (hhead : ∀ c ∈ chars.head?, isBlank c = false) : IsSpaced chars where
  plain c hc := h.plain c (List.mem_append_right front hc)
  head := hhead
  last c hc := h.last c (by rw [List.getLast?_append, Option.mem_def.mp hc]; rfl)
  apart := h.apart.right_of_append

/-- **Squeezing leaves spaced characters as they are.** -/
theorem squeeze_eq_self : ∀ {chars : List Char}, IsSpaced chars → squeeze chars = chars
  | [], _ => rfl
  | [c], h => by
      have hc : ¬isBlank c = true := by simpa using h.head
      rw [squeeze_cons_of_not_isBlank hc]
      rfl
  | c :: d :: chars, h => by
      have hc : ¬isBlank c = true := by simpa using h.head
      rw [squeeze_cons_of_not_isBlank hc]
      by_cases hd : isBlank d = true
      · -- A space: another word begins behind it, since the last character is no white space.
        have hbehind : ∀ e ∈ chars.head?, isBlank e = false := by
          intro e he
          have hnext := (List.isChain_cons.mp (List.isChain_cons.mp h.apart).2).1 e he
          exact hnext.resolve_left (by simp [hd])
        have hne : chars ≠ [] := by
          rintro rfl
          exact absurd ((h.last d rfl).symm.trans hd) Bool.false_ne_true
        have hrest : squeeze chars = chars := squeeze_eq_self (h.of_append [c, d] hbehind)
        have hspace : space (d :: chars) = [' '] :=
          space_of_head (by simpa using hd) (by rwa [squeeze_cons_of_isBlank hd, hrest])
        rw [hspace, squeeze_cons_of_isBlank hd, hrest, h.plain d (by simp) hd]
        rfl
      · have hrest : squeeze (d :: chars) = d :: chars :=
          squeeze_eq_self (h.of_append [c] (by simpa using hd))
        rw [space_cons_of_not_isBlank hd, hrest]
        rfl

theorem mem_squeeze (h : c ∈ squeeze chars) : c = ' ' ∨ c ∈ chars := by
  induction chars with
  | nil => cases h
  | cons d chars ih =>
      by_cases hblank : isBlank d = true
      · rw [squeeze_cons_of_isBlank hblank] at h
        exact (ih h).imp_right (List.mem_cons_of_mem d)
      · rw [squeeze_cons_of_not_isBlank hblank, List.mem_cons, List.mem_append] at h
        rcases h with rfl | hspace | hrest
        · exact .inr List.mem_cons_self
        · rw [space] at hspace
          split at hspace
          · exact .inl (List.mem_singleton.mp hspace)
          · cases hspace
        · exact (ih hrest).imp_right (List.mem_cons_of_mem d)

end Spaced

/-! ## Words -/

section Words

variable {c d : Char} {chars : List Char}

theorem words_ofChars (chars : List Char) :
    words (ofChars chars) =
      (((chars.map Piece.char).splitOnP Piece.isBlank).filter (!·.isEmpty)).map ofPieces := by
  rw [words, pieces_ofChars]

private theorem words_ofChars_cons_of_isBlank (h : isBlank c = true) :
    words (ofChars (c :: chars)) = words (ofChars chars) := by
  have hpiece : (Piece.char c).isBlank = true := h
  rw [words_ofChars, words_ofChars, List.map_cons, List.splitOnP_cons_eq_if_modifyHead,
    if_pos hpiece]
  rfl

/-- A character before white space, or before nothing, is a word. -/
theorem words_ofChars_cons_of_alone (h : ¬isBlank c = true) (hchars : chars.head?.all isBlank) :
    words (ofChars (c :: chars)) = ofChars [c] :: words (ofChars chars) := by
  have hpiece : ¬(Piece.char c).isBlank = true := h
  have hsplit : ∃ parts, (chars.map Piece.char).splitOnP Piece.isBlank = [] :: parts := by
    cases chars with
    | nil => exact ⟨[], List.splitOnP_nil⟩
    | cons d chars =>
        have hblank : (Piece.char d).isBlank = true := hchars
        exact ⟨_, by rw [List.map_cons, List.splitOnP_cons_eq_if_modifyHead, if_pos hblank]⟩
  obtain ⟨parts, hparts⟩ := hsplit
  rw [words_ofChars, words_ofChars, List.map_cons, List.splitOnP_cons_eq_if_modifyHead,
    if_neg hpiece, hparts]
  rfl

/-- Before another one, a character makes the first word longer. -/
theorem words_ofChars_cons_cons (h : ¬isBlank c = true) (hd : ¬isBlank d = true) :
    ∃ word more, words (ofChars (d :: chars)) = word :: more ∧
      words (ofChars (c :: d :: chars)) = (String.utf8EncodeChar c ++ word) :: more := by
  have hpiece : ¬(Piece.char c).isBlank = true := h
  have hnext : ¬(Piece.char d).isBlank = true := hd
  obtain ⟨part, parts, hparts⟩ := List.exists_cons_of_ne_nil
    (List.splitOnP_ne_nil Piece.isBlank (chars.map Piece.char))
  refine ⟨ofPieces (.char d :: part), (parts.filter (!·.isEmpty)).map ofPieces, ?_, ?_⟩
  · rw [words_ofChars, List.map_cons, List.splitOnP_cons_eq_if_modifyHead, if_neg hnext, hparts]
    rfl
  · rw [words_ofChars, List.map_cons, List.map_cons, List.splitOnP_cons_eq_if_modifyHead,
      if_neg hpiece, List.splitOnP_cons_eq_if_modifyHead, if_neg hnext, hparts]
    rfl

private theorem words_eq_nil_of_squeeze_eq_nil (h : squeeze chars = []) :
    words (ofChars chars) = [] := by
  induction chars with
  | nil => rfl
  | cons c chars ih =>
      by_cases hblank : isBlank c = true
      · rw [squeeze_cons_of_isBlank hblank] at h
        rw [words_ofChars_cons_of_isBlank hblank, ih h]
      · rw [squeeze_cons_of_not_isBlank hblank] at h
        cases h

private theorem joinWith_append_cons (separator front part : Text) (parts : List Text) :
    joinWith separator ((front ++ part) :: parts) =
      front ++ joinWith separator (part :: parts) := by
  cases parts with
  | nil => rfl
  | cons next parts => simp only [joinWith, List.append_assoc]

/-- **Joining the words of a text with spaces squeezes its characters.** -/
theorem joinWith_words (chars : List Char) :
    joinWith " " (words (ofChars chars)) = ofChars (squeeze chars) := by
  induction chars with
  | nil => rfl
  | cons c chars ih =>
      by_cases hblank : isBlank c = true
      · rw [words_ofChars_cons_of_isBlank hblank, ih, squeeze_cons_of_isBlank hblank]
      rw [squeeze_cons_of_not_isBlank hblank]
      by_cases halone : chars.head?.all isBlank = true
      · rw [words_ofChars_cons_of_alone hblank halone]
        by_cases hempty : squeeze chars = []
        · rw [words_eq_nil_of_squeeze_eq_nil hempty, space_of_squeeze_eq_nil hempty, hempty]
          rfl
        · obtain ⟨word, more, hwords⟩ : ∃ word more, words (ofChars chars) = word :: more := by
            apply List.exists_cons_of_ne_nil
            intro hnone
            rw [hnone] at ih
            apply hempty
            rw [← shown_ofChars (squeeze chars), ← ih]
            rfl
          rw [hwords] at ih ⊢
          show ofChars [c] ++ ofChars [' '] ++ joinWith " " (word :: more) = _
          rw [ih, space_of_head halone hempty, ← ofChars_append, ← ofChars_append]
          rfl
      · cases chars with
        | nil => exact absurd rfl halone
        | cons d chars =>
            have hd : ¬isBlank d = true := halone
            obtain ⟨word, more, hwords, hlonger⟩ := words_ofChars_cons_cons hblank hd
            rw [hlonger, joinWith_append_cons, ← hwords, ih, space_cons_of_not_isBlank hd]
            rfl

end Words

end Shortfall.Text

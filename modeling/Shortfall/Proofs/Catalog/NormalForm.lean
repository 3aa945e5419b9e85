import Shortfall.Proofs.Catalog.Phrase
import Shortfall.Proofs.Catalog.Unmasking

/-!
# The normal form of a phrase

A phrase is brought into its normal form by several changes, made once each and in a fixed order:
its disguise is taken off, it is trimmed and put into lower case, hyphens and underscores become
spaces, and white space between words becomes a single space. This module says what such a form
looks like (`IsNormalForm`) and that no change undoes what an earlier one did. The one that could is
the change to lower case, which comes after the disguise was taken off. But no row of the case table
leads to an invisible character, and a small letter that looks like a Latin one is the lower case of
letters that look like Latin ones as well, which are gone by then.

A normal form passes through every change as it is, so a second time changes nothing.

## Main results

* `isInvisible_lowerChar`, `latinFor?_lowerChar`: lower case makes no disguise.
* `isNormalForm_normalizePhrase`: what normalizing gives.
* `normalizePhrase_eq_self`: what normalizing leaves as it is.
* `normalizePhrase_canonical`: the two together.
-/

namespace Shortfall.Catalog

open Text (ofChars)

/-! ## Lower case makes no disguise -/

/-- Where invisible characters stand among the code points. -/
def invisibleRanges : List (Nat × Nat) := [
  (0, 8), (0xB, 0xC), (0xE, 0x1F), (0x7F, 0x9F), (0x180E, 0x180E), (0x200B, 0x200F),
  (0x202A, 0x202E), (0x2060, 0x2060), (0x2066, 0x2069), (0xFEFF, 0xFEFF), (0xE0001, 0xE007F)]

theorem isInvisible_iff {c : Char} :
    isInvisible c = true ↔ ∃ range ∈ invisibleRanges, range.1 ≤ c.toNat ∧ c.toNat ≤ range.2 := by
  simp only [isInvisible, invisibleRanges, Bool.or_eq_true, Bool.and_eq_true, Bool.not_eq_true',
    Bool.or_eq_false_iff, decide_eq_true_eq, decide_eq_false_iff_not, List.mem_cons,
    List.not_mem_nil, or_false, exists_eq_or_imp, exists_eq_left]
  omega

/-- Lower case makes nothing invisible. -/
theorem isInvisible_lowerChar {c : Char} (h : isInvisible c = false) :
    isInvisible (Text.lowerChar c) = false := by
  have hapart : ∀ range ∈ invisibleRanges, ∀ row ∈ Text.lowerRows,
      0 < (row.first : Int) + row.shift ∧ ((row.last : Int) + row.shift < range.1 ∨
        (range.2 : Int) < row.first + row.shift) := by decide +kernel
  rcases Text.lowerChar_cases c with hsame | ⟨row, hrow, hcovers, hmoved⟩
  · rw [hsame, h]
  · rw [Bool.eq_false_iff]
    intro hinvisible
    obtain ⟨range, hrange, hlow, hhigh⟩ := isInvisible_iff.mp hinvisible
    obtain ⟨hpos, htarget⟩ := hapart range hrange row hrow
    simp only [Text.CaseRow.covers, Bool.and_eq_true, decide_eq_true_eq] at hcovers
    omega

/-- A small letter that looks like a Latin one is the lower case of such letters only. -/
theorem latinFor?_lowerChar {c : Char} (h : latinFor? c = none) :
    latinFor? (Text.lowerChar c) = none := by
  have hrange : ∀ pair ∈ lookalikes, 0x391 ≤ pair.1 ∧ pair.1 ≤ 0x458 := by decide
  have hsources : ∀ row ∈ Text.lowerRows,
      ((row.last : Int) + row.shift < 0x391 ∨ 0x458 < (row.first : Int) + row.shift) ∨
        ∀ pair ∈ lookalikes, row.covers ((pair.1 : Int) - row.shift).toNat = true →
          (lookalikes.lookup ((pair.1 : Int) - row.shift).toNat).isSome = true := by decide +kernel
  rcases Text.lowerChar_cases c with hsame | ⟨row, hrow, hcovers, hmoved⟩
  · rw [hsame, h]
  · cases hletter : latinFor? (Text.lowerChar c) with
    | none => rfl
    | some letter =>
        obtain ⟨front, back, hpairs, _⟩ := List.lookup_eq_some_iff.mp hletter
        have hpair : ((Text.lowerChar c).toNat, letter) ∈ lookalikes := by simp [hpairs]
        obtain ⟨hlow, hhigh⟩ := hrange _ hpair
        rcases hsources row hrow with houtside | hpairs
        · simp only [Text.CaseRow.covers, Bool.and_eq_true, decide_eq_true_eq] at hcovers
          omega
        · have hsource : (((Text.lowerChar c).toNat : Int) - row.shift).toNat = c.toNat := by omega
          have hlookalike := hpairs _ hpair (by rwa [hsource])
          rw [hsource, ← latinFor?, h] at hlookalike
          cases hlookalike

/-! ## Characters of a normal form -/

/-- A character that normalizing leaves as it is: part of no disguise, in lower case, and neither a
hyphen nor an underscore. -/
structure IsNormal (c : Char) : Prop where
  visible : isInvisible c = false
  latin : latinFor? c = none
  lowered : Text.lowerChar c = c
  not_hyphen : c ≠ '-'
  not_underscore : c ≠ '_'

private theorem isNormal_space : IsNormal ' ' where
  visible := by decide
  latin := by decide
  lowered := Text.lowerChar_of_isBlank (by decide)
  not_hyphen := by decide
  not_underscore := by decide

/-- What becomes of a character without disguise. -/
theorem isNormal_partWords_lowerChar {c : Char} (h : isMask (.char c) = false) :
    IsNormal (partWords (Text.lowerChar c)) := by
  obtain ⟨hvisible, hletter⟩ := isMask_char_eq_false_iff.mp h
  rw [partWords]
  split
  case isTrue => exact isNormal_space
  case isFalse hword =>
    rw [Bool.or_eq_true, decide_eq_true_eq, decide_eq_true_eq, not_or] at hword
    exact {
      visible := isInvisible_lowerChar hvisible
      latin := latinFor?_lowerChar hletter
      lowered := Text.lowerChar_lowerChar c
      not_hyphen := hword.1
      not_underscore := hword.2 }

section Normal

variable {c : Char} (h : IsNormal c)

include h

theorem IsNormal.plain? : Catalog.plain? (.char c) = some c := by
  rw [Catalog.plain?, h.visible, if_neg Bool.false_ne_true, h.latin, Option.getD_none]

private theorem IsNormal.partWords_lowerChar : partWords (Text.lowerChar c) = c := by
  rw [h.lowered, partWords, if_neg]
  simp [h.not_hyphen, h.not_underscore]

end Normal

/-! ## Normal forms -/

/-- A text in normal form is well formed and has words of normal characters with single spaces
between them. -/
structure IsNormalForm (text : Text) : Prop where
  wellFormed : text.isWellFormed = true
  normal : ∀ c ∈ text.shown, IsNormal c
  spaced : Text.IsSpaced text.shown

theorem isNormalForm_normalizePhrase (text : Text) : IsNormalForm (normalizePhrase text) := by
  rw [normalizePhrase_eq]
  refine ⟨Text.isWellFormed_ofChars _, ?_, ?_⟩
  · intro c hc
    rw [Text.shown_ofChars] at hc
    rcases Text.mem_squeeze hc with rfl | hchar
    · exact isNormal_space
    · obtain ⟨given, hgiven, rfl⟩ := List.mem_map.mp hchar
      rw [plainChars, ← shown_unmask] at hgiven
      exact isNormal_partWords_lowerChar (not_isMask_of_mem_shown_unmask hgiven)
  · rw [Text.shown_ofChars]
    exact Text.isSpaced_squeeze _

private theorem plainChars_of_isNormal {chars : List Char} (h : ∀ c ∈ chars, IsNormal c) :
    plainChars (ofChars chars) = chars := by
  rw [plainChars, Text.pieces_ofChars, List.filterMap_map]
  calc chars.filterMap (plain? ∘ .char)
      = chars.filterMap some := List.filterMap_congr fun c hc => (h c hc).plain?
    _ = chars := List.filterMap_some

/-- **A normal form is left as it is.** -/
theorem normalizePhrase_eq_self {text : Text} (h : IsNormalForm text) :
    normalizePhrase text = text := by
  obtain ⟨chars, rfl⟩ := Text.isWellFormed_iff.mp h.wellFormed
  have hnormal := h.normal
  have hspaced := h.spaced
  rw [Text.shown_ofChars] at hnormal hspaced
  have hmap : (chars.map fun c => partWords (Text.lowerChar c)) = chars :=
    (List.map_congr_left fun c hc => (hnormal c hc).partWords_lowerChar).trans (List.map_id chars)
  rw [normalizePhrase_eq, plainChars_of_isNormal hnormal, hmap, Text.squeeze_eq_self hspaced]

/-- **Normalizing gives a canonical form.** Whatever the bytes of a text are, its normal form is
well formed and in lower case, has no invisible character, no look-alike, no hyphen and no
underscore in it, and has single plain spaces between its words and no white space anywhere else.
Normalizing it again changes nothing, and the texts that normalizing leaves as they are, are just
those of this form. -/
theorem normalizePhrase_canonical (text : Text) :
    IsNormalForm (normalizePhrase text) ∧
      normalizePhrase (normalizePhrase text) = normalizePhrase text ∧
      (IsNormalForm text ↔ normalizePhrase text = text) := by
  have hnormal := isNormalForm_normalizePhrase text
  refine ⟨hnormal, normalizePhrase_eq_self hnormal, normalizePhrase_eq_self, ?_⟩
  intro hsame
  rwa [hsame] at hnormal

/-- A look-alike, a hyphen and two underscores, between white space. -/
example : normalizePhrase " X-\u0430__b\t" = ("x a b" : Text) := by decide

end Shortfall.Catalog

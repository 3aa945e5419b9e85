import Shortfall.Proofs.Catalog.Lookup
import Shortfall.Proofs.Text.Words

/-!
# Triggers inside a phrase

A phrase is compared in its normal form, which is made of the whole phrase at once: its disguise is
taken off, it is trimmed, put into lower case and taken apart into words. All of this works on
single characters but for the white space, and there it comes to squeezing the characters that are
left (`normalizePhrase_eq`). So a phrase around a trigger has the normal form of the trigger in its
own: the characters of the trigger are read where they stand, whatever the bytes around them are,
and squeezing keeps what is left of a part.

## Main results

* `normalizePhrase_eq`: the normal form of a phrase, character by character.
* `normalizePhrase_infix_append`: the normal form of a part of a phrase.
* `trigger_in_phrase_relates`: a phrase that contains a trigger relates to its category.
-/

namespace Shortfall.Catalog

open Text (ofChars squeeze)

/-! ## The characters of a normal form -/

/-- The characters that are left of a text without its disguise. -/
def plainChars (text : Text) : List Char := text.pieces.filterMap plain?

/-- What becomes of a character in lower case: hyphens and underscores stand between words. -/
def partWords (c : Char) : Char := if c = '-' || c = '_' then ' ' else c

private theorem encode_partWords (c : Char) :
    (String.utf8EncodeChar c).map (fun byte => if byte = 0x2D || byte = 0x5F then 0x20 else byte) =
      String.utf8EncodeChar (partWords c) :=
  Text.map_encode_replace (a := '-') (b := '_') (x := ' ') (by decide) (by decide) (by decide) c

private theorem isBlank_partWords_lowerChar {c : Char} (h : Text.isBlank c = true) :
    Text.isBlank (partWords (Text.lowerChar c)) = true := by
  rw [Text.lowerChar_of_isBlank h, partWords]
  split
  · decide
  · exact h

/-- **The normal form of a phrase** is what squeezing leaves of its plain characters, in lower
case. -/
theorem normalizePhrase_eq (text : Text) :
    normalizePhrase text =
      ofChars (squeeze ((plainChars text).map fun c => partWords (Text.lowerChar c))) := by
  have hspaced : ((unmask text).trim.lower.map fun byte =>
        if byte = 0x2D || byte = 0x5F then 0x20 else byte) =
      ofChars ((((plainChars text).dropWhile Text.isBlank).rdropWhile Text.isBlank).map fun c =>
        partWords (Text.lowerChar c)) := by
    rw [unmask, ← plainChars, Text.trim_ofChars, Text.lower, Text.shown_ofChars,
      Text.map_ofChars encode_partWords, List.map_map]
    rfl
  rw [normalizePhrase, hspaced, Text.joinWith_words,
    Text.squeeze_map_trim fun c => isBlank_partWords_lowerChar]

/-! ## Parts of a phrase -/

/-- The plain characters of a well-formed part stand between those around it. -/
theorem plainChars_around {part : Text} (h : part.isWellFormed = true) (front back : Text) :
    ∃ before behind, plainChars (front ++ part ++ back) =
      before ++ (plainChars part ++ behind) := by
  obtain ⟨chars, rfl⟩ := Text.isWellFormed_iff.mp h
  by_cases hchars : chars = []
  · exact ⟨[], plainChars (front ++ ofChars chars ++ back), by rw [hchars]; rfl⟩
  · refine ⟨plainChars front, plainChars back, ?_⟩
    rw [plainChars, List.append_assoc, Text.pieces_append_ofChars_append hchars,
      List.filterMap_append, List.filterMap_append, ← Text.pieces_ofChars]
    rfl

/-- **The normal form of a well-formed part** is part of the normal form of the phrase. -/
theorem normalizePhrase_infix_append {part : Text} (h : part.isWellFormed = true)
    (front back : Text) :
    normalizePhrase part <:+: normalizePhrase (front ++ part ++ back) := by
  obtain ⟨before, behind, hplain⟩ := plainChars_around h front back
  rw [normalizePhrase_eq, normalizePhrase_eq, hplain, List.map_append, List.map_append]
  exact Text.ofChars_infix_ofChars (Text.squeeze_infix_append _ _ _)

/-! ## Matching -/

/-- **A phrase that contains a trigger relates to its category.** In every catalog, a well-formed
trigger of which something is left in normal form is found wherever it stands in a phrase, between
any bytes and under every spelling of the category's tag. -/
theorem trigger_in_phrase_relates {categories : List Category} {catalog : Catalog}
    (hbuild : build categories = .ok catalog) {category : Category}
    (hcategory : category ∈ catalog.categories) {trigger : Text}
    (htrigger : trigger ∈ category.triggers) (hformed : trigger.isWellFormed = true)
    (hnormal : normalizePhrase trigger ≠ []) (front back : Text) {id : Text}
    (hid : normalizeId id = category.id) :
    catalog.relates (front ++ trigger ++ back) id = true := by
  have hfound : catalog.lookup? id = some category :=
    (isProper_of_build hbuild).lookup?_eq_some_iff.mpr ⟨hcategory, hid.symm⟩
  have hoccurs : (normalizePhrase trigger).occursIn
      (normalizePhrase (front ++ trigger ++ back)) = true :=
    (Text.occursIn_iff _ _).mpr (normalizePhrase_infix_append hformed front back)
  exact relates_iff_lookup?.mpr ⟨category, hfound, trigger, htrigger, hnormal, hoccurs⟩

/-- A category whose trigger has blanks around it and a letter that looks like an x. -/
def disguised : Category := { id := "a", triggers := [" \u0445-b "] }

/-- The trigger is found behind the first byte of a character that is not there, and before a byte
that belongs to none. -/
theorem trigger_between_bytes_relates :
    build [disguised] = .ok ⟨[{ disguised with id := "A" }]⟩ ∧
      Catalog.relates ⟨[{ disguised with id := "A" }]⟩
        ([0x63, 0xE2] ++ (" \u0445-b " : Text) ++ [0x80]) "a" = true := by
  have hbuild : build [disguised] = .ok ⟨[{ disguised with id := "A" }]⟩ := by decide
  have hid : normalizeId "a" = { disguised with id := "A" }.id := by decide
  exact ⟨hbuild, trigger_in_phrase_relates hbuild (List.mem_singleton_self _)
    (List.mem_singleton_self _) (by decide) (by decide) [0x63, 0xE2] [0x80] hid⟩

end Shortfall.Catalog

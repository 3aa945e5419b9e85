import Mathlib.Logic.Relation
import Shortfall.Catalog
import Shortfall.Proofs.Text.Characters

/-!
# Disguises do not matter for matching

A phrase is compared in its normal form, and the first thing that is done for that is to take its
disguise off. So it is enough to look at `unmask`: it drops what is invisible, turns look-alikes
into the letters they look like, and leaves every other character as it is, one character at a
time. What comes out has no disguise left, so a second time changes nothing; and hiding characters
in a text, or replacing letters of it, changes only what `unmask` takes away again.

## Main results

* `unmask_unmask`: a text without disguise has none to take off.
* `Hides.unmask_eq`: one edit that disguises a text does not show behind `unmask`.
-/

namespace Shortfall.Catalog

open Text (Piece ofChars)

/-! ## Characters without disguise -/

/-- What a piece stands for is not part of a disguise. -/
theorem plain?_char_of_plain? {piece : Piece} {c : Char} (h : plain? piece = some c) :
    plain? (.char c) = some c := by
  have hletters : ∀ pair ∈ lookalikes, plain? (.char pair.2) = some pair.2 := by decide
  cases piece with
  | stray byte => cases h
  | char given =>
      rw [plain?] at h
      split at h
      case isTrue => cases h
      case isFalse hvisible =>
        cases hletter : latinFor? given with
        | none =>
            rw [hletter, Option.getD_none, Option.some.injEq] at h
            rw [← h, plain?, if_neg hvisible, hletter, Option.getD_none]
        | some letter =>
            rw [hletter, Option.getD_some, Option.some.injEq] at h
            obtain ⟨front, back, hpair, _⟩ := List.lookup_eq_some_iff.mp hletter
            rw [← h]
            exact hletters (given.toNat, letter) (by simp [hpair])

theorem unmask_ofChars (chars : List Char) :
    unmask (ofChars chars) = ofChars (chars.filterMap fun c => plain? (.char c)) := by
  rw [unmask, Text.pieces_ofChars, List.filterMap_map]
  rfl

/-- **A text without disguise has none to take off.** -/
theorem unmask_unmask (text : Text) : unmask (unmask text) = unmask text := by
  have hplain : (text.pieces.filterMap plain?).filterMap (fun c => plain? (.char c)) =
      text.pieces.filterMap plain? := by
    rw [List.filterMap_filterMap]
    apply List.filterMap_congr
    intro piece _
    cases hpiece : plain? piece with
    | none => rfl
    | some c => exact plain?_char_of_plain? hpiece
  calc unmask (unmask text)
      = ofChars ((text.pieces.filterMap plain?).filterMap fun c => plain? (.char c)) :=
        unmask_ofChars _
    _ = unmask text := by rw [hplain, unmask]

/-- The disguise is taken off in front of and behind any boundary of characters. -/
theorem unmask_append {front : Text} (h : front.isWellFormed = true) (back : Text) :
    unmask (front ++ back) = unmask front ++ unmask back := by
  rw [unmask, Text.pieces_append h, List.filterMap_append, Text.ofChars_append]
  rfl

/-! ## Disguising a text -/

/-- One edit that hides a well-formed text from a program and not from a reader: invisible
characters are put in at a boundary of characters, or a letter becomes one that looks like it. -/
inductive Hides : Text → Text → Prop where
  | insert (front back : Text) (hidden : List Char) (hfront : front.isWellFormed = true)
      (hback : back.isWellFormed = true) (hhidden : ∀ c ∈ hidden, isInvisible c = true) :
      Hides (front ++ back) (front ++ ofChars hidden ++ back)
  | replace (front back : Text) (letter lookalike : Char) (hfront : front.isWellFormed = true)
      (hback : back.isWellFormed = true) (hletter : latinFor? lookalike = some letter) :
      Hides (front ++ ofChars [letter] ++ back) (front ++ ofChars [lookalike] ++ back)

private theorem unmask_invisible {hidden : List Char} (h : ∀ c ∈ hidden, isInvisible c = true) :
    unmask (ofChars hidden) = [] := by
  have hnone : (hidden.filterMap fun c => plain? (.char c)) = [] := by
    rw [List.filterMap_eq_nil_iff]
    intro c hc
    rw [plain?, if_pos (h c hc)]
  rw [unmask_ofChars, hnone]
  rfl

/-- A letter and its look-alike stand for the same. -/
theorem plain?_lookalike {letter lookalike : Char} (h : latinFor? lookalike = some letter) :
    plain? (.char lookalike) = plain? (.char letter) := by
  have htable : ∀ pair ∈ lookalikes, isInvisible (Char.ofNat pair.1) = false := by decide
  have hvisible : isInvisible lookalike = false := by
    obtain ⟨front, back, hpair, _⟩ := List.lookup_eq_some_iff.mp h
    have hrow := htable (lookalike.toNat, letter) (by simp [hpair])
    rwa [Char.ofNat_toNat] at hrow
  have hplain : plain? (.char lookalike) = some letter := by
    rw [plain?, hvisible, if_neg Bool.false_ne_true, h, Option.getD_some]
  rw [hplain, plain?_char_of_plain? hplain]

/-- **One edit that disguises a text does not show once the disguise is off.** -/
theorem Hides.unmask_eq {text disguised : Text} (h : Hides text disguised) :
    unmask disguised = unmask text := by
  cases h with
  | insert front back hidden hfront _ hhidden =>
      rw [List.append_assoc, unmask_append hfront, unmask_append (Text.isWellFormed_ofChars hidden),
        unmask_invisible hhidden, List.nil_append, unmask_append hfront]
  | replace front back letter lookalike hfront _ hletter =>
      have hsame : unmask (ofChars [lookalike]) = unmask (ofChars [letter]) := by
        rw [unmask_ofChars, unmask_ofChars, List.filterMap_cons, List.filterMap_cons,
          plain?_lookalike hletter]
      have hcut : ∀ c : Char, unmask (front ++ ofChars [c] ++ back) =
          unmask front ++ (unmask (ofChars [c]) ++ unmask back) := by
        intro c
        rw [List.append_assoc, unmask_append hfront,
          unmask_append (Text.isWellFormed_ofChars [c])]
      rw [hcut, hcut, hsame]

private theorem unmask_eq_of_hides {text disguised : Text}
    (h : Relation.ReflTransGen Hides text disguised) : unmask disguised = unmask text := by
  induction h with
  | refl => rfl
  | tail _ hedit ih => rw [hedit.unmask_eq, ih]

/-! ## Matching -/

private theorem relates_eq_of_unmask_eq (catalog : Catalog) {phrase other : Text} (id : Text)
    (h : unmask phrase = unmask other) : catalog.relates phrase id = catalog.relates other id := by
  have hnormal : normalizePhrase phrase = normalizePhrase other := by
    rw [normalizePhrase, normalizePhrase, h]
  rw [relates, relates, hnormal]

/-- **A disguise does not defeat matching.** A phrase relates to the same categories with its
disguise and without it, and a well-formed phrase relates to the same categories after any number
of edits that disguise it. -/
theorem disguise_keeps_matches (catalog : Catalog) (phrase id : Text) :
    catalog.relates (unmask phrase) id = catalog.relates phrase id ∧
      ∀ disguised, Relation.ReflTransGen Hides phrase disguised →
        catalog.relates disguised id = catalog.relates phrase id := by
  refine ⟨?_, ?_⟩
  · exact relates_eq_of_unmask_eq catalog id (unmask_unmask phrase)
  · intro disguised hedits
    exact relates_eq_of_unmask_eq catalog id (unmask_eq_of_hides hedits)

/-- A catalog of one category. -/
def scripting : Catalog := ⟨[{ id := "XSS", triggers := ["xss"] }]⟩

/-- A trigger with a Cyrillic letter and a zero-width space in it is still found. -/
theorem disguise_keeps_matches_xss :
    Relation.ReflTransGen Hides "xss" "\u0445s\u200bs" ∧
      scripting.relates "\u0445s\u200bs" "XSS" = true := by
  have hletter : Hides "xss" "\u0445ss" :=
    .replace [] "ss" 'x' '\u0445' (by decide) (by decide) (by decide)
  have hspace : Hides "\u0445ss" "\u0445s\u200bs" :=
    .insert "\u0445s" "s" ['\u200b'] (by decide) (by decide) fun c hc => by
      rw [List.mem_singleton.mp hc]
      decide
  have hedits : Relation.ReflTransGen Hides "xss" "\u0445s\u200bs" :=
    .tail (.tail .refl hletter) hspace
  have hfound : scripting.relates "xss" "XSS" = true := by decide +kernel
  exact ⟨hedits, by rw [(disguise_keeps_matches scripting "xss" "XSS").2 _ hedits, hfound]⟩

end Shortfall.Catalog

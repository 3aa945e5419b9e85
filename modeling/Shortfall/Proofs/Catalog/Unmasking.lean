import Shortfall.Proofs.Catalog.Disguise
import Shortfall.Proofs.Text.Occurrences

/-!
# What taking a disguise off changes

Whether a text is disguised is told without looking at what becomes of it: a piece of it is part
of a disguise or it is not. This module says that the two go together. A piece that is part of no
disguise keeps its bytes; one that is becomes shorter, since what is invisible goes and the letters
that look like Latin ones have two bytes where those have one (`plainBytes`). So a text without
disguise stays as it is, to the byte, and every other text becomes shorter by at least a byte for
each part of its disguise. What is left is written down character by character, so dropping stray
bytes joins nothing to new characters, and a text can be cut in front of every byte that begins one.

## Main results

* `length_unmask_add_masks_le`: each part of a disguise costs a byte.
* `not_isDisguised_unmask`: a text without its disguise has none.
* `unmask_reports_change`: what `unmask` and `isDisguised` tell of each other.
-/

namespace Shortfall.Catalog

open Text (Piece ofChars)

/-! ## One piece -/

/-- The bytes that are left of a piece. -/
def plainBytes (piece : Piece) : Text := ofChars (plain? piece).toList

private theorem unmask_eq_flatMap (text : Text) : unmask text = text.pieces.flatMap plainBytes := by
  have hpieces : ∀ ps : List Piece, ofChars (ps.filterMap plain?) = ps.flatMap plainBytes := by
    intro ps
    induction ps with
    | nil => rfl
    | cons piece ps ih =>
        rw [List.flatMap_cons, ← ih, plainBytes, ← Text.ofChars_append]
        cases hplain : plain? piece with
        | none => rw [List.filterMap_cons_none hplain]; rfl
        | some c => rw [List.filterMap_cons_some hplain]; rfl
  exact hpieces text.pieces

theorem isMask_char_eq_false_iff {c : Char} :
    isMask (.char c) = false ↔ isInvisible c = false ∧ latinFor? c = none := by
  simp [isMask]

/-- Look-alikes have more bytes than the letters that they look like. -/
theorem of_latinFor?_eq_some {c letter : Char} (h : latinFor? c = some letter) :
    letter.utf8Size = 1 ∧ 1 < c.utf8Size := by
  have htable : ∀ pair ∈ lookalikes, pair.2.utf8Size = 1 ∧ 1 < (Char.ofNat pair.1).utf8Size := by
    decide
  obtain ⟨front, back, hpair, _⟩ := List.lookup_eq_some_iff.mp h
  have hrow := htable (c.toNat, letter) (by simp [hpair])
  rwa [Char.ofNat_toNat] at hrow

private theorem plainBytes_of_not_isMask {piece : Piece} (h : isMask piece = false) :
    plainBytes piece = piece.bytes := by
  cases piece with
  | stray byte => cases h
  | char c =>
      obtain ⟨hvisible, hletter⟩ := isMask_char_eq_false_iff.mp h
      have hplain : plain? (.char c) = some c := by
        rw [plain?, hvisible, if_neg Bool.false_ne_true, hletter, Option.getD_none]
      rw [plainBytes, hplain]
      exact List.flatMap_singleton _ _

private theorem length_plainBytes_lt {piece : Piece} (h : isMask piece = true) :
    (plainBytes piece).length < piece.bytes.length := by
  cases piece with
  | stray byte => exact Nat.zero_lt_one
  | char c =>
      have hbytes : (Piece.char c).bytes.length = c.utf8Size := String.length_utf8EncodeChar c
      rw [hbytes]
      by_cases hinvisible : isInvisible c = true
      · rw [plainBytes, plain?, if_pos hinvisible]
        exact Char.utf8Size_pos c
      · obtain ⟨letter, hletter⟩ : ∃ letter, latinFor? c = some letter := by
          rw [isMask, Bool.or_eq_true] at h
          exact Option.isSome_iff_exists.mp (h.resolve_left hinvisible)
        obtain ⟨hone, hmore⟩ := of_latinFor?_eq_some hletter
        have hleft : plainBytes (.char c) = String.utf8EncodeChar letter := by
          rw [plainBytes, plain?, if_neg hinvisible, hletter, Option.getD_some]
          exact List.flatMap_singleton _ _
        rw [hleft, String.length_utf8EncodeChar, hone]
        exact hmore

/-- What a piece stands for is part of no disguise. -/
theorem not_isMask_of_plain? {piece : Piece} {c : Char} (h : plain? piece = some c) :
    isMask (.char c) = false := by
  have hplain := plain?_char_of_plain? h
  rw [plain?] at hplain
  split at hplain
  case isTrue => cases hplain
  case isFalse hvisible =>
    refine isMask_char_eq_false_iff.mpr ⟨Bool.eq_false_iff.mpr hvisible, ?_⟩
    cases hletter : latinFor? c with
    | none => rfl
    | some letter =>
        -- A letter that stands for itself would have one byte and more than one.
        rw [hletter, Option.getD_some, Option.some.injEq] at hplain
        obtain ⟨hone, hmore⟩ := of_latinFor?_eq_some hletter
        rw [hplain] at hone
        omega

/-! ## Texts -/

theorem unmask_of_not_isDisguised {text : Text} (h : isDisguised text = false) :
    unmask text = text := by
  have hpieces : ∀ piece ∈ text.pieces, plainBytes piece = piece.bytes := fun piece hpiece =>
    plainBytes_of_not_isMask (Bool.eq_false_iff.mpr (List.any_eq_false.mp h piece hpiece))
  calc unmask text = text.pieces.flatMap plainBytes := unmask_eq_flatMap text
    _ = Text.ofPieces text.pieces := List.flatMap_congr hpieces
    _ = text := Text.bytes_pieces text

/-- **Each part of a disguise costs a byte.** -/
theorem length_unmask_add_masks_le (text : Text) :
    (unmask text).length + text.pieces.countP isMask ≤ text.length := by
  have hpieces : ∀ ps : List Piece,
      (ps.flatMap plainBytes).length + ps.countP isMask ≤ (Text.ofPieces ps).length := by
    intro ps
    induction ps with
    | nil => exact Nat.le_refl _
    | cons piece ps ih =>
        rw [Text.ofPieces, List.flatMap_cons, List.flatMap_cons, List.length_append,
          List.length_append, List.countP_cons, ← Text.ofPieces]
        by_cases hmask : isMask piece = true
        · have hless := length_plainBytes_lt hmask
          rw [if_pos hmask]
          omega
        · rw [if_neg hmask, plainBytes_of_not_isMask (Bool.eq_false_iff.mpr hmask)]
          omega
  have hwhole := hpieces text.pieces
  rwa [← unmask_eq_flatMap, Text.bytes_pieces] at hwhole

theorem length_unmask_lt {text : Text} (h : isDisguised text = true) :
    (unmask text).length < text.length := by
  have hmasks : 0 < text.pieces.countP isMask := by
    rw [List.countP_pos_iff]
    exact List.any_eq_true.mp h
  have hcost := length_unmask_add_masks_le text
  omega

theorem shown_unmask (text : Text) : (unmask text).shown = text.pieces.filterMap plain? :=
  Text.shown_ofChars _

theorem not_isMask_of_mem_shown_unmask {text : Text} {c : Char} (h : c ∈ (unmask text).shown) :
    isMask (.char c) = false := by
  rw [shown_unmask, List.mem_filterMap] at h
  obtain ⟨piece, _, hplain⟩ := h
  exact not_isMask_of_plain? hplain

/-- A text without its disguise has none. -/
theorem not_isDisguised_unmask (text : Text) : isDisguised (unmask text) = false := by
  rw [isDisguised, unmask, Text.pieces_ofChars, ← shown_unmask, List.any_eq_false]
  intro piece hpiece
  obtain ⟨c, hc, rfl⟩ := List.mem_map.mp hpiece
  rw [not_isMask_of_mem_shown_unmask hc]
  exact Bool.false_ne_true

section Cut

variable {back : Text} (hback : ∀ byte ∈ back.head?, Text.isTrailing byte = false)

include hback

theorem unmask_append_of_lead (front : Text) :
    unmask (front ++ back) = unmask front ++ unmask back := by
  rw [unmask, Text.pieces_append_of_lead hback, List.filterMap_append, Text.ofChars_append]
  rfl

theorem isDisguised_append_of_lead (front : Text) :
    isDisguised (front ++ back) = (isDisguised front || isDisguised back) := by
  rw [isDisguised, Text.pieces_append_of_lead hback, List.any_append]
  rfl

end Cut

/-- **Taking a disguise off changes a text exactly if it is disguised**, and then makes it shorter.
What is left is well formed, has no invisible character and no look-alike in it, and has no disguise
to take off. In front of a byte that can begin a character, a text can be cut before its disguise is
taken off as well as after that, whatever is in front. -/
theorem unmask_reports_change (text : Text) :
    (isDisguised text = true ↔ unmask text ≠ text) ∧
    (isDisguised text = true → (unmask text).length < text.length) ∧
    (unmask text).isWellFormed = true ∧
    (∀ c ∈ (unmask text).shown, isInvisible c = false ∧ latinFor? c = none) ∧
    unmask (unmask text) = unmask text ∧ isDisguised (unmask text) = false ∧
    ∀ back : Text, (∀ byte ∈ back.head?, Text.isTrailing byte = false) →
      unmask (text ++ back) = unmask text ++ unmask back ∧
        isDisguised (text ++ back) = (isDisguised text || isDisguised back) := by
  have hchanged : isDisguised text = true ↔ unmask text ≠ text := by
    constructor
    · intro hdisguised hsame
      have hless := length_unmask_lt hdisguised
      rw [hsame] at hless
      exact Nat.lt_irrefl _ hless
    · intro hother
      rw [← Bool.not_eq_false]
      exact fun hplain => hother (unmask_of_not_isDisguised hplain)
  refine ⟨hchanged, length_unmask_lt, Text.isWellFormed_ofChars _, ?_, unmask_unmask text,
    not_isDisguised_unmask text, ?_⟩
  · intro c hc
    exact isMask_char_eq_false_iff.mp (not_isMask_of_mem_shown_unmask hc)
  · intro back hback
    exact ⟨unmask_append_of_lead hback text, isDisguised_append_of_lead hback text⟩

/-- Two bytes of a character of three, and a letter that looks like an x behind them. -/
theorem unmask_reports_cut_character :
    isDisguised [0xE2, 0x80] = true ∧ (unmask [0xE2, 0x80]).length < 2 ∧
      unmask ([0xE2, 0x80] ++ [0xD1, 0x85]) = unmask [0xE2, 0x80] ++ unmask [0xD1, 0x85] := by
  obtain ⟨_, hshorter, _, _, _, _, hcut⟩ := unmask_reports_change [0xE2, 0x80]
  have hdisguised : isDisguised [0xE2, 0x80] = true := by decide
  have hlead : ∀ byte ∈ List.head? [(0xD1 : UInt8), 0x85], Text.isTrailing byte = false := by
    rintro _ ⟨⟩
    decide
  exact ⟨hdisguised, hshorter hdisguised, (hcut _ hlead).1⟩

end Shortfall.Catalog

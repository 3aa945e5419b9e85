import Mathlib.Algebra.Order.BigOperators.Group.List
import Mathlib.Algebra.Order.Ring.Nat
import Shortfall.Json.Printer
import Shortfall.Proofs.Json.RoundTrip
import Shortfall.Proofs.Redaction.Completeness
import Shortfall.Proofs.Text.SmallWords

/-!
# Redacted texts in print

A text that is redacted loses characters that the placeholder does not have. Printed as it is, or
between quotes with its escapes, it then loses bytes that the placeholder does not have, and so does
every document around it (`Sheds`). A document therefore tells whether its texts were redacted,
without being read back.

## Main results

* `sheds_redact`, `sheds_quoteText`: a text that a rule fires on, printed in two ways.
* `Sheds.append`, `Sheds.indented_array`, `Sheds.indented_object`: the documents around it.
* `Sheds.eq_iff`: such documents are equal only if nothing was lost.
-/

namespace Shortfall.Redaction

open Text (Piece)

/-! ## What the placeholder does not have -/

/-- The number of bytes that the placeholder does not have. -/
def substance (text : Text) : Nat := text.countP (· ∉ placeholder)

@[simp] theorem substance_append (front back : Text) :
    substance (front ++ back) = substance front + substance back :=
  List.countP_append

private theorem substance_flatMap {α : Type} (f : α → Text) (xs : List α) :
    substance (xs.flatMap f) = (xs.map fun x => substance (f x)).sum := by
  induction xs with
  | nil => rfl
  | cons x xs ih => rw [List.flatMap_cons, substance_append, ih, List.map_cons, List.sum_cons]

private theorem subset_placeholder_of_substance {text : Text} (h : substance text = 0) :
    text ⊆ placeholder := by
  intro byte hbyte
  by_contra hmem
  exact absurd h (Nat.ne_of_gt (List.countP_pos_iff.mpr ⟨byte, hbyte, decide_eq_true hmem⟩))

/-- Bytes of the placeholder are read as its characters. -/
theorem pieces_subset_mark {text : Text} (h : text ⊆ placeholder) : text.pieces ⊆ Token.mark := by
  have hascii : ∀ byte ∈ placeholder, byte.toNat < 128 := by decide +kernel
  have hmark : ∀ byte ∈ placeholder, Piece.char (Char.ofNat byte.toNat) ∈ Token.mark := by
    decide +kernel
  rw [Text.eq_ofChars_of_lt fun byte hbyte => hascii byte (h hbyte), Text.pieces_ofChars,
    List.map_map]
  intro piece hpiece
  obtain ⟨byte, hbyte, rfl⟩ := List.mem_map.mp hpiece
  exact hmark byte (h hbyte)

/-! ## Weighing pieces -/

/-- What pieces weigh together. -/
def total (toll : Piece → Nat) (pieces : List Piece) : Nat := (pieces.map toll).sum

theorem total_append (toll : Piece → Nat) (front back : List Piece) :
    total toll (front ++ back) = total toll front + total toll back := by
  rw [total, List.map_append, List.sum_append]
  rfl

theorem total_cons (toll : Piece → Nat) (piece : Piece) (pieces : List Piece) :
    total toll (piece :: pieces) = toll piece + total toll pieces := by
  rw [total, List.map_cons, List.sum_cons]
  rfl

/-- Of the pieces that occur in texts, those of the placeholder weigh nothing and no others. -/
structure IsToll (toll : Piece → Nat) : Prop where
  mark_free : ∀ piece ∈ Token.mark, toll piece = 0
  pos : ∀ text piece, piece ∈ Text.pieces text → piece ∉ Token.mark → 0 < toll piece

section Toll

variable {toll : Piece → Nat} {text : Text}

private theorem total_after_le (hfree : ∀ piece ∈ Token.mark, toll piece = 0)
    (tokens : List Token) : total toll (Token.after tokens) ≤ total toll (Token.before tokens) := by
  have hmark : total toll Token.mark = 0 := by
    rw [total, List.sum_eq_zero_iff]
    intro weighed hmem
    obtain ⟨piece, hpiece, rfl⟩ := List.mem_map.mp hmem
    exact hfree piece hpiece
  induction tokens with
  | nil => exact Nat.le_refl _
  | cons token tokens ih =>
      cases token with
      | kept piece =>
          rw [Token.after, Token.before, total_cons, total_cons]
          omega
      | span taken =>
          rw [Token.after, Token.before, total_append, total_append, hmark]
          omega

private theorem total_applyAll_le (hfree : ∀ piece ∈ Token.mark, toll piece = 0)
    {applied : List Rule} (happlied : applied ⊆ rules) (text : Text) :
    total toll (applyAll applied text).pieces ≤ total toll text.pieces := by
  induction applied generalizing text with
  | nil => exact Nat.le_refl _
  | cons rule applied ih =>
      rw [List.cons_subset] at happlied
      have hsome := not_takes_nil_of_mem rule happlied.1
      have hfirst := total_after_le hfree (rule.pattern.tokens text.pieces)
      rw [before_tokens hsome, ← pieces_apply hsome] at hfirst
      exact Nat.le_trans (ih happlied.2 (rule.apply text)) hfirst

/-- A toll is one for each character that the placeholder does not have, and something more. -/
theorem weight_add_total (htoll : IsToll toll) (text : Text) :
    weight text.pieces + total (fun piece => toll piece - 1) text.pieces =
      total toll text.pieces := by
  have hpieces : ∀ pieces ⊆ text.pieces,
      weight pieces + total (fun piece => toll piece - 1) pieces = total toll pieces := by
    intro pieces hsubset
    induction pieces with
    | nil => rfl
    | cons piece pieces ih =>
        rw [List.cons_subset] at hsubset
        have hrest := ih hsubset.2
        rw [total_cons, total_cons, weight, List.countP_cons]
        rw [weight] at hrest
        by_cases hmark : piece ∈ Token.mark
        · simp only [hmark, not_true_eq_false, decide_false, Bool.false_eq_true, if_false,
            htoll.mark_free piece hmark]
          omega
        · have hpos := htoll.pos text piece hsubset.1 hmark
          simp only [hmark, not_false_eq_true, decide_true, if_true]
          omega
  exact hpieces _ (List.Subset.refl _)

private theorem total_redact_le (htoll : IsToll toll) (text : Text) :
    total toll (redact text).pieces ≤ total toll text.pieces :=
  total_applyAll_le htoll.mark_free (List.Subset.refl rules) text

private theorem total_redact_lt (htoll : IsToll toll) (h : matching text ≠ []) :
    total toll (redact text).pieces < total toll text.pieces := by
  obtain ⟨name, hname⟩ := List.exists_mem_of_ne_nil _ h
  obtain ⟨rule, hrule, hfires, _⟩ := mem_matching_iff.mp hname
  have hweight : weight (redact text).pieces < weight text.pieces :=
    weight_applyAll_lt (List.Subset.refl rules) hrule hfires
  have hfree : ∀ piece ∈ Token.mark, toll piece - 1 = 0 := by
    intro piece hpiece
    rw [htoll.mark_free piece hpiece]
  have hmore : total (fun piece => toll piece - 1) (redact text).pieces ≤
      total (fun piece => toll piece - 1) text.pieces :=
    total_applyAll_le hfree (List.Subset.refl rules) text
  rw [← weight_add_total htoll, ← weight_add_total htoll]
  omega

end Toll

/-- The bytes of a piece that the placeholder does not have. -/
theorem isToll_bytes : IsToll fun piece => substance piece.bytes where
  mark_free := by decide
  pos := by
    intro text piece hpiece hmark
    by_contra hzero
    have hsubset :=
      pieces_subset_mark (subset_placeholder_of_substance (Nat.eq_zero_of_not_pos hzero))
    obtain ⟨front, back, hpieces⟩ := List.append_of_mem hpiece
    have hinfix : [piece] <:+: text.pieces := ⟨front, back, by simp [hpieces]⟩
    have hread : Text.pieces piece.bytes = [piece] := by
      have hwhole := Text.pieces_ofPieces_of_infix hinfix
      rwa [Text.ofPieces, List.flatMap_singleton] at hwhole
    rw [hread] at hsubset
    exact hmark (hsubset (List.mem_singleton_self piece))

/-- How a piece stands between quotes. -/
def quotedPiece : Piece → Text
  | .char c => (Json.webEscape? c).getD (String.utf8EncodeChar c)
  | .stray _ => "\\ufffd"

private theorem quoteText_eq (text : Text) :
    Json.quoteText text = [0x22] ++ text.pieces.flatMap quotedPiece ++ [0x22] := rfl

private theorem isToll_quotedPiece : IsToll fun piece => substance (quotedPiece piece) where
  mark_free := by decide
  pos := by
    intro text piece hpiece hmark
    cases piece with
    | stray byte => exact (by decide : 0 < substance "\\ufffd")
    | char c =>
        cases hescape : Json.webEscape? c with
        | none =>
            simp only [quotedPiece, hescape, Option.getD_none]
            exact isToll_bytes.pos text (.char c) hpiece hmark
        | some escape =>
            simp only [quotedPiece, hescape, Option.getD_some]
            obtain ⟨body, rfl, _⟩ := Json.escapes_of_webEscape? hescape
            exact List.countP_pos_iff.mpr ⟨0x5C, List.mem_cons_self, by decide⟩

/-! ## Documents -/

/-- The text after has at most the substance of the text before, and less if something was lost. -/
structure Sheds (lost : Prop) (after before : Text) : Prop where
  le : substance after ≤ substance before
  lt : lost → substance after < substance before

namespace Sheds

variable {lost more : Prop} {after before after' before' : Text}

theorem refl (text : Text) : Sheds False text text := ⟨Nat.le_refl _, nofun⟩

theorem append (h : Sheds lost after before) (h' : Sheds more after' before') :
    Sheds (lost ∨ more) (after ++ after') (before ++ before') := by
  have hle := h.le
  have hle' := h'.le
  constructor
  · rw [substance_append, substance_append]
    omega
  · rw [substance_append, substance_append]
    rintro (hlost | hmore)
    · have hlt := h.lt hlost
      omega
    · have hlt := h'.lt hmore
      omega

theorem mono (h : Sheds lost after before) (hmore : more → lost) : Sheds more after before :=
  ⟨h.le, fun hlost => h.lt (hmore hlost)⟩

/-- A text that stands in both in the same place. -/
theorem append_left (h : Sheds lost after before) (front : Text) :
    Sheds lost (front ++ after) (front ++ before) :=
  ((refl front).append h).mono .inr

theorem append_right (h : Sheds lost after before) (back : Text) :
    Sheds lost (after ++ back) (before ++ back) :=
  (h.append (refl back)).mono .inl

/-- **Documents of which one sheds the other's substance** differ when something was lost. -/
theorem eq_iff (h : Sheds lost after before) (hsame : ¬lost → after = before) :
    after = before ↔ ¬lost := by
  refine ⟨fun heq hlost => ?_, hsame⟩
  have hlt := h.lt hlost
  rw [heq] at hlt
  exact Nat.lt_irrefl _ hlt

end Sheds

theorem sheds_redact (text : Text) : Sheds (matching text ≠ []) (redact text) text := by
  have hbytes : ∀ text : Text,
      substance text = total (fun piece => substance piece.bytes) text.pieces := by
    intro text
    conv_lhs => rw [← Text.bytes_pieces text, Text.ofPieces, substance_flatMap]
    rfl
  constructor
  · rw [hbytes, hbytes text]
    exact total_redact_le isToll_bytes text
  · intro hfires
    rw [hbytes, hbytes text]
    exact total_redact_lt isToll_bytes hfires

theorem sheds_quoteText (text : Text) :
    Sheds (matching text ≠ []) (Json.quoteText (redact text)) (Json.quoteText text) := by
  have hquoted : ∀ text : Text, substance (text.pieces.flatMap quotedPiece) =
      total (fun piece => substance (quotedPiece piece)) text.pieces := fun text =>
    substance_flatMap quotedPiece text.pieces
  have hinner : Sheds (matching text ≠ []) ((redact text).pieces.flatMap quotedPiece)
      (text.pieces.flatMap quotedPiece) := by
    constructor
    · rw [hquoted, hquoted]
      exact total_redact_le isToll_quotedPiece text
    · intro hfires
      rw [hquoted, hquoted]
      exact total_redact_lt isToll_quotedPiece hfires
  rw [quoteText_eq, quoteText_eq]
  exact (hinner.append_left [0x22]).append_right [0x22]

private theorem Token.eq_nil_of_after_eq_nil {tokens : List Token} (h : after tokens = []) :
    tokens = [] := by
  cases tokens with
  | nil => rfl
  | cons token tokens =>
      cases token with
      | kept piece => exact absurd h (List.cons_ne_nil _ _)
      | span taken => exact absurd h (List.cons_ne_nil _ _)

theorem redact_eq_nil_iff {text : Text} : redact text = [] ↔ text = [] := by
  have happly : ∀ rule ∈ rules, ∀ text : Text, rule.apply text = [] → text = [] := by
    intro rule hrule text hempty
    have hsome := not_takes_nil_of_mem rule hrule
    have hafter : Token.after (rule.pattern.tokens text.pieces) = [] := by
      rw [← pieces_apply hsome, hempty]
      rfl
    have htokens := Token.eq_nil_of_after_eq_nil hafter
    rw [← Text.bytes_pieces text, ← before_tokens hsome text.pieces, htokens]
    rfl
  have hall : ∀ applied ⊆ rules, ∀ text : Text, applyAll applied text = [] → text = [] := by
    intro applied happlied
    induction applied with
    | nil => exact fun text hempty => hempty
    | cons rule applied ih =>
        rw [List.cons_subset] at happlied
        intro text hempty
        exact happly rule happlied.1 text (ih happlied.2 _ hempty)
  constructor
  · exact hall rules (List.Subset.refl rules) text
  · rintro rfl
    exact redact_of_subset_mark (List.nil_subset _)

/-! ## Lists of texts -/

/-- Lists of as many texts, which shed together. -/
structure ShedsEach (lost : Prop) (after before : List Text) : Prop where
  length_eq : after.length = before.length
  sheds : Sheds lost after.flatten before.flatten

namespace ShedsEach

variable {lost more : Prop} {after before after' before' : List Text}

theorem refl (texts : List Text) : ShedsEach False texts texts := ⟨rfl, .refl _⟩

theorem singleton {one other : Text} (h : Sheds lost one other) :
    ShedsEach lost [one] [other] := by
  refine ⟨rfl, ?_⟩
  rw [List.flatten_singleton, List.flatten_singleton]
  exact h

theorem append (h : ShedsEach lost after before) (h' : ShedsEach more after' before') :
    ShedsEach (lost ∨ more) (after ++ after') (before ++ before') := by
  constructor
  · rw [List.length_append, List.length_append, h.length_eq, h'.length_eq]
  · rw [List.flatten_append, List.flatten_append]
    exact h.sheds.append h'.sheds

theorem mono (h : ShedsEach lost after before) (hmore : more → lost) :
    ShedsEach more after before :=
  ⟨h.length_eq, h.sheds.mono hmore⟩

private theorem not_lost_of_self {texts : List Text} (h : ShedsEach lost texts texts) : ¬lost :=
  fun hlost => Nat.lt_irrefl _ (h.sheds.lt hlost)

theorem map {α : Type} {dirty : α → Prop} {f g : α → Text} {xs : List α}
    (h : ∀ x ∈ xs, Sheds (dirty x) (f x) (g x)) :
    ShedsEach (∃ x ∈ xs, dirty x) (xs.map f) (xs.map g) := by
  induction xs with
  | nil => exact (refl []).mono (by simp)
  | cons x xs ih =>
      rw [List.forall_mem_cons] at h
      refine ((singleton h.1).append (ih h.2)).mono ?_
      rw [List.exists_mem_cons_iff]
      exact id

end ShedsEach

theorem substance_joinWith (separator : Text) (parts : List Text) :
    substance (Text.joinWith separator parts) =
      substance parts.flatten + (parts.length - 1) * substance separator := by
  induction parts with
  | nil => simp [Text.joinWith]
  | cons first parts ih =>
      cases parts with
      | nil => simp [Text.joinWith]
      | cons second parts =>
          rw [Json.joinWith_cons_cons, substance_append, substance_append, ih]
          simp only [List.flatten_cons, substance_append, List.length_cons, Nat.add_sub_cancel,
            Nat.add_mul, Nat.one_mul]
          omega

theorem ShedsEach.joinWith {lost : Prop} {after before : List Text}
    (h : ShedsEach lost after before) (separator : Text) :
    Sheds lost (Text.joinWith separator after) (Text.joinWith separator before) := by
  have hle := h.sheds.le
  constructor
  · rw [substance_joinWith, substance_joinWith, h.length_eq]
    omega
  · intro hlost
    have hlt := h.sheds.lt hlost
    rw [substance_joinWith, substance_joinWith, h.length_eq]
    omega

/-! ## Indented documents -/

private theorem indentedItems_eq_map (level : Nat) (items : List Json) :
    Json.indentedItems level items = items.map (Json.indented level) := by
  induction items with
  | nil => rfl
  | cons item items ih => rw [Json.indentedItems, ih, List.map_cons]

/-- A member of an object, as it is printed. -/
def printedMember (level : Nat) (member : Text × Json) : Text :=
  Json.quoteText member.1 ++ ": " ++ Json.indented level member.2

private theorem indentedMembers_eq_map (level : Nat) (members : List (Text × Json)) :
    Json.indentedMembers level members = members.map (printedMember level) := by
  induction members with
  | nil => rfl
  | cons member members ih => rw [Json.indentedMembers, ih, List.map_cons]; rfl

section Indented

variable {lost : Prop} {level : Nat}

theorem Sheds.indented_array {after before : List Json}
    (h : ShedsEach lost (after.map (Json.indented (level + 1)))
      (before.map (Json.indented (level + 1)))) :
    Sheds lost (Json.indented level (.array after)) (Json.indented level (.array before)) := by
  cases after with
  | nil =>
      obtain rfl : before = [] :=
        List.map_eq_nil_iff.mp (List.length_eq_zero_iff.mp h.length_eq.symm)
      exact (Sheds.refl _).mono h.not_lost_of_self
  | cons first after =>
      cases before with
      | nil => exact absurd h.length_eq (by simp)
      | cons second before =>
          rw [Json.indented, Json.indented, indentedItems_eq_map, indentedItems_eq_map]
          exact (((h.joinWith _).append_left _).append_right _).append_right _

theorem Sheds.indented_object {after before : List (Text × Json)}
    (h : ShedsEach lost (after.map (printedMember (level + 1)))
      (before.map (printedMember (level + 1)))) :
    Sheds lost (Json.indented level (.object after)) (Json.indented level (.object before)) := by
  cases after with
  | nil =>
      obtain rfl : before = [] :=
        List.map_eq_nil_iff.mp (List.length_eq_zero_iff.mp h.length_eq.symm)
      exact (Sheds.refl _).mono h.not_lost_of_self
  | cons first after =>
      cases before with
      | nil => exact absurd h.length_eq (by simp)
      | cons second before =>
          rw [Json.indented, Json.indented, indentedMembers_eq_map, indentedMembers_eq_map]
          exact (((h.joinWith _).append_left _).append_right _).append_right _

theorem Sheds.printedMember_string {after before : Text}
    (h : Sheds lost (Json.quoteText after) (Json.quoteText before)) (level : Nat) (name : Text) :
    Sheds lost (printedMember level (name, .string after))
      (printedMember level (name, .string before)) :=
  h.append_left _

end Indented

end Shortfall.Redaction

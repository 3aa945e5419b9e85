import Mathlib.Data.List.Forall2
import Shortfall.Redaction.Pattern

/-!
# What a pattern takes

A pattern is matched by a search through the ways to go on behind each of its parts. What the
search is about is a relation: which characters a part takes (`Part.Takes`), and which characters a
pattern takes, part after part (`Pattern.Takes`). The search prefers some ways to others, but it
finds one exactly if there is one (`isSome_rest?_iff`), so that a pattern occurs in a text exactly
if it takes consecutive characters of it (`occurs_iff`).
-/

namespace Shortfall.Redaction

open Text (Piece)

/-- Whether a character can stand for another one in a word. -/
def Alike (anyCase : Bool) (c d : Char) : Prop :=
  c = d ∨ (anyCase = true ∧ Text.foldKey c = Text.foldKey d)

instance (anyCase : Bool) (c d : Char) : Decidable (Alike anyCase c d) :=
  inferInstanceAs (Decidable (_ ∨ _))

/-- The characters that a part takes. -/
def Part.Takes : Part → List Char → Prop
  | word anyCase choices, front => ∃ word ∈ choices, List.Forall₂ (Alike anyCase) front word
  | run inClass least most?, front =>
      least ≤ front.length ∧ (∀ most ∈ most?, front.length ≤ most) ∧
        ∀ c ∈ front, inClass c = true

/-- The characters that a pattern takes. -/
def Pattern.Takes : Pattern → List Char → Prop
  | [], front => front = []
  | part :: parts, front =>
      ∃ first behind, front = first ++ behind ∧ part.Takes first ∧ Pattern.Takes parts behind

/-! ## Words -/

theorem wordRest?_eq_some_iff {anyCase : Bool} {word : List Char} {text rest : List Piece} :
    wordRest? anyCase word text = some rest ↔
      ∃ front, text = front ++ rest ∧
        List.Forall₂ (Alike anyCase) (front.map Piece.shown) word := by
  induction word generalizing text with
  | nil =>
      rw [wordRest?, Option.some.injEq]
      constructor
      · rintro rfl
        exact ⟨[], rfl, .nil⟩
      · rintro ⟨front, rfl, halike⟩
        rw [List.forall₂_nil_right_iff, List.map_eq_nil_iff] at halike
        rw [halike, List.nil_append]
  | cons c word ih =>
      cases text with
      | nil =>
          constructor
          · intro h
            cases h
          · rintro ⟨front, hnil, halike⟩
            rw [(List.append_eq_nil_iff.mp hnil.symm).1] at halike
            cases halike
      | cons piece text =>
          have hfirst : (piece.shown = c || (anyCase && Text.foldKey piece.shown = Text.foldKey c))
              = true ↔ Alike anyCase piece.shown c := by
            simp [Alike]
          rw [wordRest?]
          split
          · next hsame =>
              rw [ih]
              constructor
              · rintro ⟨front, rfl, halike⟩
                exact ⟨piece :: front, rfl, .cons (hfirst.mp hsame) halike⟩
              · rintro ⟨front, htext, halike⟩
                cases front with
                | nil => cases halike
                | cons first front =>
                    cases htext
                    exact ⟨front, rfl, (List.forall₂_cons.mp halike).2⟩
          · next hother =>
              constructor
              · intro h
                cases h
              · rintro ⟨front, htext, halike⟩
                cases front with
                | nil => cases halike
                | cons first front =>
                    cases htext
                    exact absurd (hfirst.mpr (List.forall₂_cons.mp halike).1) hother

/-! ## Runs -/

/-- The runs that can be taken at the front of a text that begins with a given piece. -/
theorem takes_run_cons_iff {inClass : Char → Bool} {least : Nat} {most? : Option Nat} {c : Char}
    {front : List Char} :
    (Part.run inClass least most?).Takes (c :: front) ↔
      (most? ≠ some 0 ∧ inClass c = true) ∧
        (Part.run inClass (least - 1) (most?.map (· - 1))).Takes front := by
  simp only [Part.Takes, List.length_cons, List.forall_mem_cons]
  cases most? with
  | none =>
      have hleast : least ≤ front.length + 1 ↔ least - 1 ≤ front.length := by omega
      simp only [hleast, Option.not_mem_none, Option.map_none, ne_eq, reduceCtorEq,
        not_false_eq_true, true_and, IsEmpty.forall_iff, implies_true]
      exact and_left_comm
  | some most =>
      simp only [Option.mem_def, Option.some.injEq, forall_eq', Option.map_some, ne_eq]
      constructor
      · rintro ⟨hleast, hmost, hclass, hclasses⟩
        exact ⟨⟨by omega, hclass⟩, by omega, by omega, hclasses⟩
      · rintro ⟨⟨hpos, hclass⟩, hleast, hmost, hclasses⟩
        exact ⟨by omega, by omega, hclass, hclasses⟩

theorem takes_run_nil_iff {inClass : Char → Bool} {least : Nat} {most? : Option Nat} :
    (Part.run inClass least most?).Takes [] ↔ least = 0 := by
  simp [Part.Takes]

/-- To take nothing leaves the whole text. -/
theorem mem_found_iff {found : List (List Piece)} {least : Nat} {text rest : List Piece} :
    (rest ∈ if least = 0 then text :: found else found) ↔
      rest ∈ found ∨ (rest = text ∧ least = 0) := by
  split
  · next hzero => simp [hzero, or_comm]
  · next hpos => simp [hpos]

theorem mem_runRests_iff {inClass : Char → Bool} {found : List (List Piece)} {least : Nat}
    {most? : Option Nat} {text rest : List Piece} :
    rest ∈ runRests inClass found least most? text ↔
      rest ∈ found ∨ ∃ front, text = front ++ rest ∧
        (Part.run inClass least most?).Takes (front.map Piece.shown) := by
  induction text generalizing found least most? with
  | nil =>
      rw [runRests, mem_found_iff]
      refine or_congr_right ⟨?_, ?_⟩
      · rintro ⟨rfl, hzero⟩
        exact ⟨[], rfl, takes_run_nil_iff.mpr hzero⟩
      · rintro ⟨front, hnil, htakes⟩
        obtain ⟨rfl, rfl⟩ := List.append_eq_nil_iff.mp hnil.symm
        exact ⟨rfl, takes_run_nil_iff.mp htakes⟩
  | cons piece text ih =>
      have hsplit : (∃ front, piece :: text = front ++ rest ∧
          (Part.run inClass least most?).Takes (front.map Piece.shown)) ↔
          (rest = piece :: text ∧ least = 0) ∨
            ((most? ≠ some 0 ∧ inClass piece.shown = true) ∧ ∃ front, text = front ++ rest ∧
              (Part.run inClass (least - 1) (most?.map (· - 1))).Takes
                (front.map Piece.shown)) := by
        constructor
        · rintro ⟨front, htext, htakes⟩
          cases front with
          | nil => exact .inl ⟨htext.symm, takes_run_nil_iff.mp htakes⟩
          | cons first front =>
              cases htext
              obtain ⟨hfirst, htakes⟩ := takes_run_cons_iff.mp htakes
              exact .inr ⟨hfirst, front, rfl, htakes⟩
        · rintro (⟨rfl, hzero⟩ | ⟨hfirst, front, rfl, htakes⟩)
          · exact ⟨[], rfl, takes_run_nil_iff.mpr hzero⟩
          · exact ⟨piece :: front, rfl, takes_run_cons_iff.mpr ⟨hfirst, htakes⟩⟩
      have hgoes : (most? ≠ some 0 && inClass piece.shown) = true ↔
          most? ≠ some 0 ∧ inClass piece.shown = true := by
        simp
      rw [runRests, hsplit]
      split
      · next hfirst =>
          rw [ih, mem_found_iff, or_assoc]
          exact or_congr_right (or_congr_right (and_iff_right (hgoes.mp hfirst)).symm)
      · next hfirst =>
          rw [mem_found_iff]
          exact or_congr_right (iff_self_or.mpr fun h => absurd (hgoes.mpr h.1) hfirst)

/-! ## Patterns -/

/-- What a pattern takes, piece by piece. -/
theorem takes_cons_iff {part : Part} {parts : Pattern} {taken : List Piece} :
    Pattern.Takes (part :: parts) (taken.map Piece.shown) ↔
      ∃ first behind, taken = first ++ behind ∧ part.Takes (first.map Piece.shown) ∧
        parts.Takes (behind.map Piece.shown) := by
  constructor
  · rintro ⟨first, behind, hshown, hfirst, hbehind⟩
    obtain ⟨first, behind, rfl, rfl, rfl⟩ := List.map_eq_append_iff.mp hshown
    exact ⟨first, behind, rfl, hfirst, hbehind⟩
  · rintro ⟨first, behind, rfl, hfirst, hbehind⟩
    exact ⟨_, _, List.map_append, hfirst, hbehind⟩

theorem takes_nil_iff {taken : List Piece} :
    Pattern.Takes [] (taken.map Piece.shown) ↔ taken = [] :=
  List.map_eq_nil_iff

/-- A longer pattern takes what its first parts take and what the others take behind it. -/
theorem takes_append_iff {pattern parts : Pattern} {taken : List Piece} :
    Pattern.Takes (pattern ++ parts) (taken.map Piece.shown) ↔
      ∃ first behind, taken = first ++ behind ∧ pattern.Takes (first.map Piece.shown) ∧
        parts.Takes (behind.map Piece.shown) := by
  induction pattern generalizing taken with
  | nil =>
      constructor
      · intro h
        exact ⟨[], taken, rfl, rfl, h⟩
      · rintro ⟨first, behind, rfl, hfirst, hbehind⟩
        rwa [takes_nil_iff.mp hfirst]
  | cons part pattern ih =>
      rw [List.cons_append, takes_cons_iff]
      constructor
      · rintro ⟨first, _, rfl, hfirst, hrest⟩
        obtain ⟨second, behind, rfl, hsecond, hbehind⟩ := ih.mp hrest
        exact ⟨first ++ second, behind, (List.append_assoc ..).symm,
          takes_cons_iff.mpr ⟨first, second, rfl, hfirst, hsecond⟩, hbehind⟩
      · rintro ⟨_, behind, rfl, htakes, hbehind⟩
        obtain ⟨first, second, rfl, hfirst, hsecond⟩ := takes_cons_iff.mp htakes
        exact ⟨first, second ++ behind, List.append_assoc .., hfirst,
          ih.mpr ⟨second, behind, rfl, hsecond, hbehind⟩⟩

theorem mem_rests_iff {part : Part} {text rest : List Piece} :
    rest ∈ part.rests text ↔
      ∃ front, text = front ++ rest ∧ part.Takes (front.map Piece.shown) := by
  cases part with
  | word anyCase choices =>
      simp only [Part.rests, List.mem_filterMap, wordRest?_eq_some_iff, Part.Takes]
      constructor
      · rintro ⟨word, hword, front, htext, halike⟩
        exact ⟨front, htext, word, hword, halike⟩
      · rintro ⟨front, htext, word, hword, halike⟩
        exact ⟨word, hword, front, htext, halike⟩
  | run inClass least most? =>
      rw [Part.rests, mem_runRests_iff]
      simp

private theorem takes_of_rest? {pattern : Pattern} {text rest : List Piece}
    (h : pattern.rest? text = some rest) :
    ∃ front, text = front ++ rest ∧ pattern.Takes (front.map Piece.shown) := by
  induction pattern generalizing text with
  | nil =>
      cases h
      exact ⟨[], rfl, rfl⟩
  | cons part parts ih =>
      obtain ⟨between, hbetween, hrest⟩ := List.exists_of_findSome?_eq_some h
      obtain ⟨first, rfl, hfirst⟩ := mem_rests_iff.mp hbetween
      obtain ⟨behind, rfl, hbehind⟩ := ih hrest
      exact ⟨first ++ behind, (List.append_assoc ..).symm,
        takes_cons_iff.mpr ⟨first, behind, rfl, hfirst, hbehind⟩⟩

private theorem isSome_rest?_of_takes {pattern : Pattern} {front : List Piece}
    (h : pattern.Takes (front.map Piece.shown)) (rest : List Piece) :
    (pattern.rest? (front ++ rest)).isSome := by
  induction pattern generalizing front with
  | nil => rfl
  | cons part parts ih =>
      obtain ⟨first, behind, rfl, hfirst, hbehind⟩ := takes_cons_iff.mp h
      rw [Pattern.rest?, List.findSome?_isSome_iff]
      refine ⟨behind ++ rest, mem_rests_iff.mpr ⟨first, ?_, hfirst⟩, ih hbehind⟩
      rw [List.append_assoc]

/-- A pattern matches at the front of a text if it takes some characters there. -/
theorem isSome_rest?_iff {pattern : Pattern} {text : List Piece} :
    (pattern.rest? text).isSome ↔
      ∃ front, front <+: text ∧ pattern.Takes (front.map Piece.shown) := by
  constructor
  · intro h
    obtain ⟨rest, hrest⟩ := Option.isSome_iff_exists.mp h
    obtain ⟨front, rfl, htakes⟩ := takes_of_rest? hrest
    exact ⟨front, List.prefix_append front rest, htakes⟩
  · rintro ⟨front, ⟨rest, rfl⟩, htakes⟩
    exact isSome_rest?_of_takes htakes rest

/-- **A pattern occurs in a text if it takes consecutive characters of it.** -/
theorem occurs_iff {pattern : Pattern} {text : List Piece} :
    pattern.occurs text = true ↔
      ∃ taken, taken <:+: text ∧ pattern.Takes (taken.map Piece.shown) := by
  induction text with
  | nil =>
      rw [Pattern.occurs, isSome_rest?_iff]
      simp only [List.prefix_nil, List.infix_nil]
  | cons piece text ih =>
      rw [Pattern.occurs, Bool.or_eq_true, isSome_rest?_iff, ih]
      simp only [List.infix_cons_iff, or_and_right, exists_or]

/-- A match takes what it leaves out. -/
theorem takes_of_matchLength? {pattern : Pattern} {text : List Piece} {taken : Nat}
    (h : pattern.matchLength? text = some taken) :
    taken ≤ text.length ∧ pattern.Takes ((text.take taken).map Piece.shown) := by
  obtain ⟨rest, hrest, rfl⟩ := Option.map_eq_some_iff.mp h
  obtain ⟨front, rfl, htakes⟩ := takes_of_rest? hrest
  rw [List.length_append, Nat.add_sub_cancel, List.take_left]
  exact ⟨Nat.le_add_right _ _, htakes⟩

end Shortfall.Redaction

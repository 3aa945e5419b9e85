import Shortfall.Proofs.Redaction.Tokens

/-!
# What a rule leaves behind

Most rules describe credentials without brackets. Such a rule finds nothing in what it has left
(`not_fires_apply`), and no other rule makes it find something (`fires_of_fires_apply`): the
placeholder keeps apart what stands before and behind it.

Every rule asks for a character that the placeholder does not have. The number of such characters
therefore drops with each rule that fires, and no rule makes it grow (`weight_apply_lt`,
`weight_apply_le`). So a text that is not changed is one that no rule fires on.
-/

namespace Shortfall.Redaction

open Text (Piece)

/-! ## Characters that a pattern cannot take -/

/-- Whether a part never takes the character. -/
def Part.avoids (c : Char) : Part → Bool
  | word anyCase choices => choices.all (·.all fun d => !decide (Alike anyCase c d))
  | run inClass _ _ => !inClass c

def Pattern.avoids (c : Char) (pattern : Pattern) : Bool := pattern.all (·.avoids c)

private theorem exists_partner_of_mem {R : Char → Char → Prop} {front word : List Char} {c : Char}
    (h : List.Forall₂ R front word) (hmem : c ∈ front) : ∃ d ∈ word, R c d := by
  induction h with
  | nil => exact absurd hmem List.not_mem_nil
  | @cons first d front word hpair _ ih =>
      rcases List.mem_cons.mp hmem with rfl | hrest
      · exact ⟨d, List.mem_cons_self, hpair⟩
      · obtain ⟨d, hd, hpair⟩ := ih hrest
        exact ⟨d, List.mem_cons_of_mem _ hd, hpair⟩

theorem Part.not_mem_of_avoids {part : Part} {c : Char} (h : part.avoids c = true)
    {front : List Char} (htakes : part.Takes front) : c ∉ front := by
  intro hmem
  cases part with
  | word anyCase choices =>
      obtain ⟨word, hword, halike⟩ := htakes
      obtain ⟨d, hd, hsame⟩ := exists_partner_of_mem halike hmem
      have hother := List.all_eq_true.mp (List.all_eq_true.mp h word hword) d hd
      simp [hsame] at hother
  | run inClass least most? =>
      have hclass := htakes.2.2 c hmem
      rw [Part.avoids, hclass] at h
      cases h

theorem Pattern.not_mem_of_avoids {pattern : Pattern} {c : Char} (h : pattern.avoids c = true)
    {front : List Char} (htakes : pattern.Takes front) : c ∉ front := by
  induction pattern generalizing front with
  | nil =>
      rw [htakes]
      exact List.not_mem_nil
  | cons part parts ih =>
      obtain ⟨first, behind, rfl, hfirst, hbehind⟩ := htakes
      obtain ⟨hpart, hparts⟩ := Bool.and_eq_true_iff.mp h
      rw [List.mem_append, not_or]
      exact ⟨part.not_mem_of_avoids hpart hfirst, ih hparts hbehind⟩

/-! ## Rules that stay quiet -/

/-- Whether a pattern takes no brackets and finds nothing in the letters of the placeholder. -/
def Pattern.isSteady (pattern : Pattern) : Bool :=
  pattern.avoids '[' && pattern.avoids ']' && !pattern.occurs Token.letters

section Steady

variable {rule other : Rule} {text : Text}

theorem Rule.fires_iff : rule.fires text = true ↔
    ∃ taken, taken <:+: text.pieces ∧ rule.pattern.Takes (taken.map Piece.shown) :=
  occurs_iff

theorem not_takes_nil {pattern : Pattern} (h : pattern.occurs Token.letters = false) :
    ¬pattern.Takes [] := by
  intro htakes
  have hoccurs : pattern.occurs Token.letters = true :=
    occurs_iff.mpr ⟨[], List.nil_infix, htakes⟩
  rw [h] at hoccurs
  cases hoccurs

/-- What a steady pattern takes of a text that is left was kept. -/
theorem Token.kept_of_steady {pattern : Pattern} (hsteady : pattern.isSteady = true)
    {tokens : List Token} {front taken back : List Piece}
    (htakes : pattern.Takes (taken.map Piece.shown))
    (h : Token.after tokens = front ++ (taken ++ back)) :
    taken ≠ [] ∧ ∃ first second, tokens = first ++ (taken.map .kept ++ second) ∧
      Token.after second = back := by
  rw [Pattern.isSteady, Bool.and_eq_true, Bool.and_eq_true, Bool.not_eq_true'] at hsteady
  obtain ⟨⟨hopen, hclose⟩, hletters⟩ := hsteady
  have hne : taken ≠ [] := by
    rintro rfl
    exact not_takes_nil hletters htakes
  have hbrackets : ∀ piece ∈ taken, piece ≠ .char '[' ∧ piece ≠ .char ']' := by
    intro piece hmem
    have hshown := List.mem_map_of_mem (f := Piece.shown) hmem
    constructor
    · rintro rfl
      exact Pattern.not_mem_of_avoids hopen htakes hshown
    · rintro rfl
      exact Pattern.not_mem_of_avoids hclose htakes hshown
  rcases Token.letters_or_kept hne hbrackets h with hinfix | ⟨first, second, htokens, _, hback⟩
  · have hoccurs := occurs_iff.mpr ⟨taken, hinfix, htakes⟩
    rw [hletters] at hoccurs
    cases hoccurs
  · exact ⟨hne, first, second, htokens, hback⟩

private theorem kept_of_fires_apply (hsteady : rule.pattern.isSteady = true)
    (hother : ¬other.pattern.Takes []) (h : rule.fires (other.apply text) = true) :
    ∃ first taken second, other.pattern.tokens text.pieces = first ++ (taken.map .kept ++ second) ∧
      taken ≠ [] ∧ rule.pattern.Takes (taken.map Piece.shown) := by
  obtain ⟨taken, ⟨front, back, htext⟩, htakes⟩ := Rule.fires_iff.mp h
  rw [pieces_apply hother, List.append_assoc] at htext
  obtain ⟨hne, first, second, htokens, _⟩ := Token.kept_of_steady hsteady htakes htext.symm
  exact ⟨first, taken, second, htokens, hne, htakes⟩

/-- No rule makes a steady rule find something. -/
theorem fires_of_fires_apply (hsteady : rule.pattern.isSteady = true)
    (hother : ¬other.pattern.Takes []) (h : rule.fires (other.apply text) = true) :
    rule.fires text = true := by
  obtain ⟨first, taken, second, htokens, _, htakes⟩ := kept_of_fires_apply hsteady hother h
  refine Rule.fires_iff.mpr ⟨taken, ⟨Token.before first, Token.before second, ?_⟩, htakes⟩
  have hbefore := before_tokens hother text.pieces
  rw [htokens, Token.before_append, Token.before_append, Token.before_map_kept] at hbefore
  rw [← hbefore, List.append_assoc]

/-- A steady rule finds nothing in what it has left. -/
theorem not_fires_apply (hsteady : rule.pattern.isSteady = true) (text : Text) :
    ¬rule.fires (rule.apply text) = true := by
  intro h
  have hsome : ¬rule.pattern.Takes [] := by
    rw [Pattern.isSteady, Bool.and_eq_true, Bool.not_eq_true'] at hsteady
    exact not_takes_nil hsteady.2
  obtain ⟨first, taken, second, htokens, hne, htakes⟩ := kept_of_fires_apply hsteady hsome h
  have hsplits := splits_tokens hsome text.pieces
  rw [htokens] at hsplits
  exact hsplits.not_takes_of_kept hne (List.prefix_append _ _) htakes

end Steady

/-! ## Characters that the placeholder does not have -/

/-- Whether a part takes a character only if the placeholder does not have it. -/
def Part.demands : Part → Bool
  | word anyCase choices => choices.all (·.any fun d =>
      Token.mark.all fun piece => !decide (Alike anyCase piece.shown d))
  | run inClass least _ => 0 < least && Token.mark.all fun piece => !inClass piece.shown

/-- Whether a pattern takes nothing without a character that the placeholder does not have. -/
def Pattern.demands (pattern : Pattern) : Bool := pattern.any (·.demands)

theorem Part.exists_not_mem_mark {part : Part} (h : part.demands = true) {taken : List Piece}
    (htakes : part.Takes (taken.map Piece.shown)) : ∃ piece ∈ taken, piece ∉ Token.mark := by
  cases part with
  | word anyCase choices =>
      obtain ⟨word, hword, halike⟩ := htakes
      obtain ⟨d, hd, hnone⟩ := List.any_eq_true.mp (List.all_eq_true.mp h word hword)
      have hback : List.Forall₂ (fun d c => Alike anyCase c d) word (taken.map Piece.shown) :=
        List.Forall₂.flip halike
      obtain ⟨c, hc, hsame⟩ := exists_partner_of_mem hback hd
      obtain ⟨piece, hpiece, rfl⟩ := List.mem_map.mp hc
      refine ⟨piece, hpiece, fun hmark => ?_⟩
      have hother := List.all_eq_true.mp hnone piece hmark
      rw [decide_eq_true hsame] at hother
      cases hother
  | run inClass least most? =>
      obtain ⟨hleast, hnone⟩ := Bool.and_eq_true_iff.mp h
      obtain ⟨hlength, _, hclass⟩ := htakes
      cases taken with
      | nil =>
          have hsome := of_decide_eq_true hleast
          exact absurd (Nat.lt_of_lt_of_le hsome hlength) (Nat.lt_irrefl 0)
      | cons piece taken =>
          refine ⟨piece, List.mem_cons_self, fun hmark => ?_⟩
          have hother := List.all_eq_true.mp hnone piece hmark
          rw [hclass piece.shown List.mem_cons_self] at hother
          cases hother

theorem Pattern.exists_not_mem_mark {pattern : Pattern} (h : pattern.demands = true)
    {taken : List Piece} (htakes : pattern.Takes (taken.map Piece.shown)) :
    ∃ piece ∈ taken, piece ∉ Token.mark := by
  induction pattern generalizing taken with
  | nil => cases h
  | cons part parts ih =>
      obtain ⟨first, behind, rfl, hfirst, hbehind⟩ := takes_cons_iff.mp htakes
      rcases Bool.or_eq_true_iff.mp h with hpart | hparts
      · obtain ⟨piece, hmem, hmark⟩ := part.exists_not_mem_mark hpart hfirst
        exact ⟨piece, List.mem_append_left _ hmem, hmark⟩
      · obtain ⟨piece, hmem, hmark⟩ := ih hparts hbehind
        exact ⟨piece, List.mem_append_right _ hmem, hmark⟩

/-- The number of characters that the placeholder does not have. -/
def weight (pieces : List Piece) : Nat := pieces.countP (· ∉ Token.mark)

theorem weight_append (front back : List Piece) :
    weight (front ++ back) = weight front + weight back :=
  List.countP_append

private theorem weight_mark : weight Token.mark = 0 := by
  decide

namespace Token

def isSpan : Token → Bool
  | kept _ => false
  | span _ => true

/-- Each span costs a character that the placeholder does not have. -/
theorem weight_after_add_spans_le {tokens : List Token}
    (h : ∀ taken, span taken ∈ tokens → ∃ piece ∈ taken, piece ∉ mark) :
    weight (after tokens) + tokens.countP isSpan ≤ weight (before tokens) := by
  induction tokens with
  | nil => exact Nat.le_refl 0
  | cons token tokens ih =>
      have hrest := ih fun taken hmem => h taken (List.mem_cons_of_mem _ hmem)
      cases token with
      | kept piece =>
          have hkept : ∀ pieces, weight (piece :: pieces) = weight [piece] + weight pieces :=
            weight_append [piece]
          rw [after, before, hkept, hkept (before tokens),
            List.countP_cons_of_neg (by simp [isSpan])]
          omega
      | span taken =>
          have htaken : 0 < weight taken := by
            obtain ⟨piece, hmem, hmark⟩ := h taken List.mem_cons_self
            exact List.countP_pos_iff.mpr ⟨piece, hmem, decide_eq_true hmark⟩
          rw [after, before, weight_append, weight_append, weight_mark,
            List.countP_cons_of_pos (by rfl)]
          omega

end Token

section Weight

variable {rule : Rule} {text : Text}

private theorem span_infix_before {tokens : List Token} {taken : List Piece}
    (h : .span taken ∈ tokens) : taken <:+: Token.before tokens := by
  obtain ⟨first, second, rfl⟩ := List.append_of_mem h
  rw [Token.before_append, Token.before]
  exact ⟨Token.before first, Token.before second, List.append_assoc ..⟩

/-- A rule fires on a text if it replaces something in it. -/
theorem fires_iff_exists_span (hsome : ¬rule.pattern.Takes []) :
    rule.fires text = true ↔ ∃ taken, .span taken ∈ rule.pattern.tokens text.pieces := by
  have hsplits := splits_tokens hsome text.pieces
  have hbefore := before_tokens hsome text.pieces
  rw [Rule.fires_iff]
  constructor
  · rintro ⟨taken, ⟨front, back, htext⟩, htakes⟩
    rcases Token.kept_front (rule.pattern.tokens text.pieces) with
      ⟨pieces, htokens⟩ | ⟨pieces, span, rest, htokens⟩
    · exfalso
      have hpieces : pieces = front ++ (taken ++ back) := by
        rw [← List.append_assoc, htext, ← hbefore, htokens, Token.before_map_kept]
      rw [htokens, hpieces, List.map_append, List.map_append] at hsplits
      have hne : taken ≠ [] := by
        rintro rfl
        exact hsome htakes
      exact hsplits.not_takes_of_kept hne (List.prefix_append _ _) htakes
    · exact ⟨span, htokens ▸ by simp⟩
  · rintro ⟨taken, hmem⟩
    have hinfix := span_infix_before hmem
    rw [hbefore] at hinfix
    exact ⟨taken, hinfix, hsplits.takes_of_mem hmem⟩

/-- A rule that does not fire changes nothing. -/
theorem apply_of_not_fires (hsome : ¬rule.pattern.Takes []) (h : ¬rule.fires text = true) :
    rule.apply text = text := by
  rw [fires_iff_exists_span hsome] at h
  have hpieces : (rule.apply text).pieces = text.pieces := by
    rw [pieces_apply hsome]
    rcases Token.kept_front (rule.pattern.tokens text.pieces) with
      ⟨pieces, htokens⟩ | ⟨pieces, taken, rest, htokens⟩
    · have hbefore := before_tokens hsome text.pieces
      rw [htokens, Token.before_map_kept] at hbefore
      rw [htokens, Token.after_map_kept, hbefore]
    · exact absurd ⟨taken, htokens ▸ by simp⟩ h
  rw [← Text.bytes_pieces (rule.apply text), hpieces, Text.bytes_pieces]

private theorem weight_apply_add_spans_le (hsome : ¬rule.pattern.Takes [])
    (hdemands : rule.pattern.demands = true) (text : Text) :
    weight (rule.apply text).pieces + (rule.pattern.tokens text.pieces).countP Token.isSpan ≤
      weight text.pieces := by
  have hle : _ ≤ weight (Token.before (rule.pattern.tokens text.pieces)) :=
    Token.weight_after_add_spans_le fun taken hmem =>
      Pattern.exists_not_mem_mark hdemands ((splits_tokens hsome text.pieces).takes_of_mem hmem)
  rwa [before_tokens hsome, ← pieces_apply hsome] at hle

theorem weight_apply_le (hsome : ¬rule.pattern.Takes []) (hdemands : rule.pattern.demands = true)
    (text : Text) : weight (rule.apply text).pieces ≤ weight text.pieces :=
  Nat.le_of_add_right_le (weight_apply_add_spans_le hsome hdemands text)

theorem weight_apply_lt (hsome : ¬rule.pattern.Takes []) (hdemands : rule.pattern.demands = true)
    (h : rule.fires text = true) : weight (rule.apply text).pieces < weight text.pieces := by
  obtain ⟨taken, hmem⟩ := (fires_iff_exists_span hsome).mp h
  have hspans : 0 < (rule.pattern.tokens text.pieces).countP Token.isSpan :=
    List.countP_pos_iff.mpr ⟨_, hmem, rfl⟩
  have hle := weight_apply_add_spans_le hsome hdemands text
  omega

end Weight

/-! ## One rule after another -/

theorem not_takes_nil_of_mem : ∀ rule ∈ rules, ¬rule.pattern.Takes [] := by
  have hnone : rules.all (fun rule => !rule.pattern.occurs Token.letters) = true := by
    decide
  intro rule hrule
  have hrule := List.all_eq_true.mp hnone rule hrule
  rw [Bool.not_eq_true'] at hrule
  exact not_takes_nil hrule

theorem demands_of_mem : ∀ rule ∈ rules, rule.pattern.demands = true := by
  have hall : rules.all (·.pattern.demands) = true := by
    decide
  exact List.all_eq_true.mp hall

/-- The text with the credentials replaced that the given rules find, one after another. -/
def applyAll (applied : List Rule) (text : Text) : Text :=
  applied.foldl (fun text rule => rule.apply text) text

theorem applyAll_nil (text : Text) : applyAll [] text = text := rfl

theorem applyAll_append (first second : List Rule) (text : Text) :
    applyAll (first ++ second) text = applyAll second (applyAll first text) :=
  List.foldl_append

theorem applyAll_cons (rule : Rule) (applied : List Rule) (text : Text) :
    applyAll (rule :: applied) text = applyAll applied (rule.apply text) := rfl

section All

variable {applied : List Rule} {rule : Rule} {text : Text}

/-- Rules that do not fire change nothing. -/
theorem applyAll_of_not_fires (happlied : applied ⊆ rules)
    (h : ∀ rule ∈ applied, ¬rule.fires text = true) : applyAll applied text = text := by
  induction applied with
  | nil => rfl
  | cons rule applied ih =>
      rw [List.forall_mem_cons] at h
      rw [List.cons_subset] at happlied
      have hfirst := apply_of_not_fires (not_takes_nil_of_mem rule happlied.1) h.1
      rw [applyAll_cons, hfirst, ih happlied.2 h.2]

private theorem weight_applyAll_le (happlied : applied ⊆ rules) (text : Text) :
    weight (applyAll applied text).pieces ≤ weight text.pieces := by
  induction applied generalizing text with
  | nil => exact Nat.le_refl _
  | cons rule applied ih =>
      rw [List.cons_subset] at happlied
      have hfirst := weight_apply_le (not_takes_nil_of_mem rule happlied.1)
        (demands_of_mem rule happlied.1) text
      exact Nat.le_trans (ih happlied.2 (rule.apply text)) hfirst

theorem weight_applyAll_lt (happlied : applied ⊆ rules) (hrule : rule ∈ applied)
    (h : rule.fires text = true) :
    weight (applyAll applied text).pieces < weight text.pieces := by
  induction applied with
  | nil => exact absurd hrule List.not_mem_nil
  | cons first applied ih =>
      rw [List.cons_subset] at happlied
      have hsome := not_takes_nil_of_mem first happlied.1
      by_cases hfires : first.fires text = true
      · have hfirst := weight_apply_lt hsome (demands_of_mem first happlied.1) hfires
        exact Nat.lt_of_le_of_lt (weight_applyAll_le happlied.2 (first.apply text)) hfirst
      · rw [applyAll_cons, apply_of_not_fires hsome hfires]
        refine ih happlied.2 ((List.mem_cons.mp hrule).resolve_left ?_)
        rintro rfl
        exact hfires h

/-- Rules leave a text as it is exactly if none of them fires on it. What the first one that fires
has taken away, no later one brings back. -/
theorem applyAll_eq_self_iff (happlied : applied ⊆ rules) :
    applyAll applied text = text ↔ ∀ rule ∈ applied, ¬rule.fires text = true := by
  constructor
  · intro hsame rule hrule hfires
    have hlt := weight_applyAll_lt happlied hrule hfires
    rw [hsame] at hlt
    exact Nat.lt_irrefl _ hlt
  · exact applyAll_of_not_fires happlied

/-- A text that a rule fires on does not stay as it is. -/
theorem redact_ne_of_fires (hrule : rule ∈ rules) (h : rule.fires text = true) :
    redact text ≠ text := by
  intro hsame
  exact (applyAll_eq_self_iff (List.Subset.refl rules)).mp hsame rule hrule h

/-- A text that has only characters of the placeholder stays as it is. -/
theorem redact_of_subset_mark (h : text.pieces ⊆ Token.mark) : redact text = text := by
  refine applyAll_of_not_fires (List.Subset.refl rules) fun rule hrule hfires => ?_
  obtain ⟨taken, hfound, htakes⟩ := Rule.fires_iff.mp hfires
  obtain ⟨piece, hmem, hmark⟩ := Pattern.exists_not_mem_mark (demands_of_mem rule hrule) htakes
  exact hmark (h (hfound.subset hmem))

private theorem isWellFormed_apply (hsome : ¬rule.pattern.Takes []) (h : text.isWellFormed = true) :
    (rule.apply text).isWellFormed = true := by
  have hmark : ∀ piece ∈ Token.mark, piece.isStray = false := by decide
  rw [Text.isWellFormed, Bool.not_eq_true', List.any_eq_false] at h ⊢
  intro piece hpiece
  rw [pieces_apply hsome] at hpiece
  rcases Token.mem_after hpiece with hkept | hplaced
  · refine h piece ?_
    rw [← before_tokens hsome text.pieces]
    exact Token.mem_before_of_kept hkept
  · rw [hmark piece hplaced]
    exact Bool.false_ne_true

/-- Redaction keeps texts well-formed. -/
theorem isWellFormed_redact (h : text.isWellFormed = true) : (redact text).isWellFormed = true := by
  have hall : ∀ applied ⊆ rules, ∀ text : Text, text.isWellFormed = true →
      (applyAll applied text).isWellFormed = true := by
    intro applied happlied
    induction applied with
    | nil => exact fun _ => id
    | cons rule applied ih =>
        intro text htext
        rw [List.cons_subset] at happlied
        exact ih happlied.2 _ (isWellFormed_apply (not_takes_nil_of_mem rule happlied.1) htext)
  exact hall rules (List.Subset.refl rules) text h

/-- A steady rule that finds nothing finds nothing later either. -/
theorem not_fires_applyAll (hsteady : rule.pattern.isSteady = true) (happlied : applied ⊆ rules)
    (h : ¬rule.fires text = true) : ¬rule.fires (applyAll applied text) = true := by
  induction applied generalizing text with
  | nil => exact h
  | cons first applied ih =>
      rw [List.cons_subset] at happlied
      refine ih happlied.2 fun hfires => h ?_
      exact fires_of_fires_apply hsteady (not_takes_nil_of_mem first happlied.1) hfires

/-- A steady rule finds nothing in a redacted text. -/
theorem not_fires_redact (hsteady : rule.pattern.isSteady = true) (hrule : rule ∈ rules)
    (text : Text) : ¬rule.fires (redact text) = true := by
  obtain ⟨earlier, later, hrules⟩ := List.append_of_mem hrule
  have hlater : later ⊆ rules := by
    rw [hrules]
    exact fun _ hmem => List.mem_append_right _ (List.mem_cons_of_mem _ hmem)
  have hredact : redact text = applyAll rules text := rfl
  rw [hredact, hrules, applyAll_append, applyAll_cons]
  exact not_fires_applyAll hsteady hlater (not_fires_apply hsteady _)

end All

end Shortfall.Redaction

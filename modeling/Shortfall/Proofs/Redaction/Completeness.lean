import Shortfall.Proofs.Redaction.Addresses

/-!
# What is left to find in a redacted text

Once redacted, a text should have nothing in it that a rule would find. Ten of the twelve rules keep
to that. The last one replaces spaces, separators and quotes together with a password, and so it can
join what they kept apart: a key and a placeholder that now stands where its value is expected, or
the parts of an address. `redact_leaves` says exactly when that happens, in terms of what the last
rule keeps and replaces; in all other cases redacting again changes nothing.

The names of the rules that fire are found on the text as it is given, while each rule is applied to
what the ones before it have left. Both agree on whether there is anything to find
(`redact_eq_self_iff`).
-/

namespace Shortfall.Redaction

open Text (Piece)

def passwordRule : Rule := rules.get ⟨11, by decide⟩

/-! ## Keys before placeholders -/

def isValueChar (c : Char) : Bool := !(isSpace c || isQuote c)

/-- A key and what stands between it and its value. -/
def untilValue : Pattern := [
  .word true (["password", "passwd", "pwd", "secret"].map String.toList), atLeast 0 isSpace,
  oneOf "=:", atLeast 0 isSpace, .run isQuote 0 (some 1)]

private theorem isSteady_untilValue : untilValue.isSteady = true := by
  decide +kernel

theorem takes_password_iff {taken : List Piece} :
    passwordRule.pattern.Takes (taken.map Piece.shown) ↔
      ∃ lead value ending, taken = lead ++ (value ++ ending) ∧
        untilValue.Takes (lead.map Piece.shown) ∧
        (8 ≤ value.length ∧ ∀ piece ∈ value, isValueChar piece.shown = true) ∧
        (Part.run isQuote 0 (some 1)).Takes (ending.map Piece.shown) := by
  have hpattern : passwordRule.pattern =
    untilValue ++ [atLeast 8 isValueChar, .run isQuote 0 (some 1)] := rfl
  rw [hpattern]
  simp only [takes_append_iff, takes_cons_iff, takes_nil_iff, takes_atLeast_iff]
  constructor
  · rintro ⟨lead, _, rfl, hlead, value, _, rfl, hvalue, ending, _, rfl, hending, rfl⟩
    exact ⟨lead, value, ending, by simp, hlead, hvalue, hending⟩
  · rintro ⟨lead, value, ending, rfl, hlead, hvalue, hending⟩
    exact ⟨lead, _, rfl, hlead, value, _, rfl, hvalue, ending, [], by simp, hending, rfl⟩

namespace Token

/-- A key was kept right before a span, with less than a value in between. -/
def HoldKey (tokens : List Token) : Prop :=
  ∃ (first : List Token) (lead value taken : List Piece) (rest : List Token),
    tokens = first ++ (lead.map kept ++ (value.map kept ++ span taken :: rest)) ∧
    untilValue.Takes (lead.map Piece.shown) ∧ value.length < 8 ∧
    ∀ piece ∈ value, isValueChar piece.shown = true

private theorem occurs_after_of_holdKey {tokens : List Token} (h : HoldKey tokens) :
    passwordRule.pattern.occurs (after tokens) = true := by
  obtain ⟨first, lead, value, taken, rest, rfl, hlead, _, hvalue⟩ := h
  have hmark : ∀ piece ∈ mark, isValueChar piece.shown = true := by decide
  refine occurs_iff.mpr ⟨lead ++ (value ++ mark), ⟨after first, after rest, by simp⟩,
    takes_password_iff.mpr ⟨lead, value ++ mark, [], by simp, hlead, ⟨?_, ?_⟩,
      takes_run_nil_iff.mpr rfl⟩⟩
  · have hlength : mark.length = 10 := rfl
    rw [List.length_append, hlength]
    omega
  · exact List.forall_mem_append.mpr ⟨hvalue, hmark⟩

/-- The rule finds a password in what it has left only where a key was kept before a span. -/
theorem holdKey_of_occurs_after {tokens : List Token} (hsplits : passwordRule.pattern.Splits tokens)
    (h : passwordRule.pattern.occurs (after tokens) = true) : HoldKey tokens := by
  obtain ⟨taken, ⟨front, back, htext⟩, htakes⟩ := occurs_iff.mp h
  obtain ⟨lead, value, ending, rfl, hlead, ⟨hlong, hvalue⟩, _⟩ := takes_password_iff.mp htakes
  -- The key and what follows it up to the value have no brackets, so they were kept.
  have hafter : after tokens = front ++ (lead ++ (value ++ (ending ++ back))) := by
    simp [← htext]
  obtain ⟨hne, first, second, rfl, hsecond⟩ := kept_of_steady isSteady_untilValue hlead hafter
  have hvalue_prefix : value <+: after second := ⟨ending ++ back, hsecond.symm⟩
  -- Eight more kept pieces would have been taken with the key.
  have hshort : ∀ (pieces : List Piece) (rest : List Token),
      second = pieces.map kept ++ rest → pieces.length < 8 := by
    intro pieces rest hpieces
    by_contra hlength
    have hfirst : value.take 8 <+: pieces := by
      refine List.prefix_of_prefix_length_le ((List.take_prefix 8 value).trans hvalue_prefix)
        ⟨after rest, by simp [hpieces]⟩ ?_
      rw [List.length_take]
      omega
    have hprefix : lead ++ (value.take 8 ++ []) <+: lead ++ before second := by
      rw [List.append_nil, List.prefix_append_right_inj, hpieces, before_append, before_map_kept]
      exact hfirst.trans (List.prefix_append _ _)
    refine hsplits.not_takes_of_kept hne hprefix (takes_password_iff.mpr
      ⟨lead, value.take 8, [], rfl, hlead, ⟨?_, fun piece hmem => ?_⟩, takes_run_nil_iff.mpr rfl⟩)
    · rw [List.length_take]
      omega
    · exact hvalue piece (List.mem_of_mem_take hmem)
  rcases kept_front second with ⟨pieces, rfl⟩ | ⟨pieces, taken, rest, rfl⟩
  · have hlength := hvalue_prefix.length_le
    have hless := hshort pieces [] (by simp)
    rw [after_map_kept] at hlength
    omega
  · have hless := hshort pieces _ rfl
    have hfront : pieces <+: value := by
      refine List.prefix_of_prefix_length_le ⟨after (span taken :: rest), by simp⟩ hvalue_prefix ?_
      omega
    exact ⟨first, lead, pieces, taken, rest, rfl, hlead, hless,
      fun piece hmem => hvalue piece (hfront.subset hmem)⟩

end Token

/-! ## Redacted texts -/

theorem passwordRule_mem : passwordRule ∈ rules := List.get_mem rules _

theorem mem_matching_iff {name text : Text} :
    name ∈ matching text ↔ ∃ rule ∈ rules, rule.fires text = true ∧ rule.name = name := by
  simp [matching, and_assoc]

theorem matching_eq_nil_iff {text : Text} :
    matching text = [] ↔ ∀ rule ∈ rules, ¬rule.fires text = true := by
  simp [matching]

/-- **Redaction changes a text exactly if a rule fires on it.** The rules are tried on the text as
it is given, and applied one after another to what the ones before have left. -/
theorem redact_eq_self_iff (text : Text) : redact text = text ↔ matching text = [] := by
  have hredact : redact text = applyAll rules text := rfl
  rw [hredact, applyAll_eq_self_iff (List.Subset.refl rules), matching_eq_nil_iff]

/-- Every other rule finds nothing between brackets. -/
theorem address_password_or_steady :
    ∀ rule ∈ rules, rule = addressRule ∨ rule = passwordRule ∨ rule.pattern.isSteady = true := by
  have hrules : rules = rules.take 8 ++ addressRule :: (tokenRules ++ [passwordRule]) := rfl
  have hsteady : (rules.take 8 ++ tokenRules).all (·.pattern.isSteady) = true := by
    decide +kernel
  intro rule hrule
  rw [hrules, List.mem_append, List.mem_cons, List.mem_append, List.mem_singleton] at hrule
  rcases hrule with hearly | rfl | htoken | rfl
  · exact .inr (.inr (List.all_eq_true.mp hsteady rule (List.mem_append_left _ hearly)))
  · exact .inl rfl
  · exact .inr (.inr (List.all_eq_true.mp hsteady rule (List.mem_append_right _ htoken)))
  · exact .inr (.inl rfl)

theorem redact_eq_apply (text : Text) :
    redact text = passwordRule.apply (applyAll rules.dropLast text) := by
  have hrules : rules.dropLast ++ [passwordRule] = rules := rfl
  have hredact : redact text = applyAll (rules.dropLast ++ [passwordRule]) text := by
    rw [hrules]
    rfl
  rw [hredact, applyAll_append, applyAll_cons, applyAll_nil]

/-- In a redacted text the rule for addresses finds the addresses that the last rule has left. -/
theorem address_fires_redact_iff (text : Text) :
    addressRule.fires (redact text) = true ↔
      Token.HoldAddress (passwordRule.pattern.tokens (applyAll rules.dropLast text).pieces) := by
  rw [redact_eq_apply, fires_apply_iff (not_takes_nil_of_mem passwordRule passwordRule_mem)]

/-- And the last rule finds the keys that it has kept before a span. -/
theorem password_fires_redact_iff (text : Text) :
    passwordRule.fires (redact text) = true ↔
      Token.HoldKey (passwordRule.pattern.tokens (applyAll rules.dropLast text).pieces) := by
  have hsome := not_takes_nil_of_mem passwordRule passwordRule_mem
  rw [redact_eq_apply, Rule.fires, pieces_apply hsome]
  exact ⟨Token.holdKey_of_occurs_after (splits_tokens hsome _), Token.occurs_after_of_holdKey⟩

theorem fires_redact_iff {rule : Rule} (hrule : rule ∈ rules) (text : Text) :
    rule.fires (redact text) = true ↔
      (rule = addressRule ∧ addressRule.fires (redact text) = true) ∨
      (rule = passwordRule ∧ passwordRule.fires (redact text) = true) := by
  constructor
  · intro h
    rcases address_password_or_steady rule hrule with rfl | rfl | hsteady
    · exact .inl ⟨rfl, h⟩
    · exact .inr ⟨rfl, h⟩
    · exact absurd h (not_fires_redact hsteady hrule text)
  · rintro (⟨rfl, h⟩ | ⟨rfl, h⟩) <;> exact h

/-- **What is left to find in a redacted text.** Of all rules only two can find something in it. The
one for addresses does if the last rule has kept the scheme and the separators of an address and put
a placeholder into its name or its password; before the last rule no address was left. The last rule
itself does if it has kept a key right before a span that it replaced, with less than a value in
between. Redacting again changes a text exactly if one of the two finds something. -/
theorem redact_leaves (text : Text) :
    let left := applyAll rules.dropLast text
    let tokens := passwordRule.pattern.tokens left.pieces
    left.pieces = Token.before tokens ∧ (redact text).pieces = Token.after tokens ∧
    ¬addressRule.fires left = true ∧
    (∀ name, name ∈ matching (redact text) ↔
      (name = "url-credentials" ∧ Token.HoldAddress tokens) ∨
      (name = "password-assignment" ∧ Token.HoldKey tokens)) ∧
    (matching (redact text) = [] ↔ ¬Token.HoldAddress tokens ∧ ¬Token.HoldKey tokens) ∧
    (redact (redact text) = redact text ↔ matching (redact text) = []) := by
  intro left tokens
  have hsome := not_takes_nil_of_mem passwordRule passwordRule_mem
  have hmatching : ∀ name, name ∈ matching (redact text) ↔
      (name = "url-credentials" ∧ Token.HoldAddress tokens) ∨
      (name = "password-assignment" ∧ Token.HoldKey tokens) := by
    intro name
    rw [mem_matching_iff, ← address_fires_redact_iff, ← password_fires_redact_iff]
    constructor
    · rintro ⟨rule, hrule, hfires, rfl⟩
      rcases (fires_redact_iff hrule text).mp hfires with ⟨rfl, h⟩ | ⟨rfl, h⟩
      · exact .inl ⟨rfl, h⟩
      · exact .inr ⟨rfl, h⟩
    · rintro (⟨rfl, h⟩ | ⟨rfl, h⟩)
      · exact ⟨addressRule, addressRule_mem, h, rfl⟩
      · exact ⟨passwordRule, passwordRule_mem, h, rfl⟩
  refine ⟨(before_tokens hsome _).symm, ?_, not_fires_address text, hmatching, ?_, ?_⟩
  · rw [redact_eq_apply, pieces_apply hsome]
  · rw [List.eq_nil_iff_forall_not_mem]
    simp only [hmatching]
    constructor
    · intro h
      exact ⟨fun haddress => h _ (.inl ⟨rfl, haddress⟩), fun hkey => h _ (.inr ⟨rfl, hkey⟩)⟩
    · rintro ⟨haddress, hkey⟩ name (⟨_, h⟩ | ⟨_, h⟩)
      · exact haddress h
      · exact hkey h
  · rw [matching_eq_nil_iff]
    constructor
    · exact fun h rule hrule hfires => redact_ne_of_fires hrule hfires h
    · exact applyAll_of_not_fires (List.Subset.refl rules)

/-- The value of the inner key is replaced together with its blanks, and the outer key then stands
before a placeholder. Likewise the blanks and quotes go that kept an address from being one. -/
theorem redact_leaves_key_and_address :
    redact "pwd=pwd = abcdefgh" = Text.ofString "pwd=[REDACTED]" ∧
    matching (redact "pwd=pwd = abcdefgh") ≠ [] ∧
    redact (redact "pwd=pwd = abcdefgh") ≠ redact "pwd=pwd = abcdefgh" ∧
    redact "y://pwd = 'abcdefgh':s@" = Text.ofString "y://[REDACTED]:s@" ∧
    matching (redact "y://pwd = 'abcdefgh':s@") ≠ [] := by
  have hkey : redact "pwd=pwd = abcdefgh" = Text.ofString "pwd=[REDACTED]" := by
    decide +kernel
  have hpassword : passwordRule.fires "pwd=[REDACTED]" = true := by
    decide +kernel
  have haddress : redact "y://pwd = 'abcdefgh':s@" = Text.ofString "y://[REDACTED]:s@" := by
    decide +kernel
  have hurl : addressRule.fires "y://[REDACTED]:s@" = true := by
    decide +kernel
  rw [hkey, haddress]
  exact ⟨rfl, List.ne_nil_of_mem (mem_matching_iff.mpr ⟨_, passwordRule_mem, hpassword, rfl⟩),
    redact_ne_of_fires passwordRule_mem hpassword, rfl,
    List.ne_nil_of_mem (mem_matching_iff.mpr ⟨_, addressRule_mem, hurl, rfl⟩)⟩

end Shortfall.Redaction

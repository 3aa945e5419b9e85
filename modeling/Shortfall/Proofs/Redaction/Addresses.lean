import Shortfall.Proofs.Redaction.Rules

/-!
# Addresses with a password in them

The rule for addresses such as `scheme://name:password@` takes brackets, so it can find an address
that a placeholder is part of. Scheme and separators were kept then, and the placeholder stands
within the name or within the password (`occurs_after_iff`). Where the rule itself has put it there,
the address would have been found before, from the same character on (`not_holdAddress_own`). Where
a rule has put it there that replaces no separators and no spaces, there was an address before
(`fires_of_holdAddress`).
-/

namespace Shortfall.Redaction

open Text (Piece)

def addressRule : Rule := rules.get ⟨8, by decide⟩

/-! ## What the rule takes -/

def isSchemeChar (c : Char) : Bool := isAlnum c || "+.-".toList.contains c

/-- The characters of a name. -/
def isUserChar (c : Char) : Bool := !(c = ':' || c = '/' || c = '@' || isSpace c)

/-- The characters of a password. -/
def isSecretChar (c : Char) : Bool := !(c = '@' || isSpace c)

/-- The characters that end a name. -/
def userStops : List Char := [':', '/', '@', ' ', '\t', '\n', '\x0c', '\r']

theorem isUserChar_iff {c : Char} : isUserChar c = true ↔ c ∉ userStops := by
  simp [isUserChar, isSpace, userStops, and_assoc]

private theorem isUserChar_of_isSchemeChar {c : Char} (h : isSchemeChar c = true) :
    isUserChar c = true := by
  have hstops : userStops.all (fun stop => !isSchemeChar stop) = true := by decide
  rw [isUserChar_iff]
  intro hmem
  have hother := List.all_eq_true.mp hstops c hmem
  rw [h] at hother
  cases hother

private theorem isSchemeChar_of_isLetter {c : Char} (h : isLetter c = true) :
    isSchemeChar c = true := by
  simp [isSchemeChar, isAlnum, h]

theorem isSecretChar_of_isUserChar {c : Char} (h : isUserChar c = true) :
    isSecretChar c = true := by
  simp only [isUserChar, isSecretChar, Bool.not_eq_true', Bool.or_eq_false_iff] at h ⊢
  exact ⟨h.1.2, h.2⟩

/-- The parts of an address between its separators. -/
structure IsAddress (scheme user secret : List Piece) : Prop where
  scheme : ∃ first rest, scheme = first :: rest ∧ isLetter first.shown = true ∧
    ∀ piece ∈ rest, isSchemeChar piece.shown = true
  user_ne : user ≠ []
  user : ∀ piece ∈ user, isUserChar piece.shown = true
  secret_ne : secret ≠ []
  secret : ∀ piece ∈ secret, isSecretChar piece.shown = true

/-- An address, up to the sign behind the password. -/
def address (scheme user secret : List Piece) : List Piece :=
  scheme ++ (.char ':' :: .char '/' :: .char '/' ::
    (user ++ (.char ':' :: (secret ++ [.char '@']))))

theorem IsAddress.isSchemeChar {scheme user secret : List Piece}
    (h : IsAddress scheme user secret) :
    ∀ piece ∈ scheme, isSchemeChar piece.shown = true := by
  obtain ⟨first, rest, rfl, hfirst, hrest⟩ := h.scheme
  exact List.forall_mem_cons.mpr ⟨isSchemeChar_of_isLetter hfirst, hrest⟩

private theorem IsAddress.scheme_ne {scheme user secret : List Piece}
    (h : IsAddress scheme user secret) : scheme ≠ [] := by
  obtain ⟨first, rest, rfl, _⟩ := h.scheme
  exact List.cons_ne_nil first rest

/-- Behind the scheme and its colon, all of an address can stand in a password. -/
theorem IsAddress.isSecretChar_behind {scheme user secret : List Piece}
    (h : IsAddress scheme user secret) :
    ∀ piece ∈ Piece.char '/' :: .char '/' :: (user ++ .char ':' :: secret),
      isSecretChar piece.shown = true := by
  simp only [List.forall_mem_cons, List.forall_mem_append]
  exact ⟨by decide, by decide, fun piece hmem => isSecretChar_of_isUserChar (h.user piece hmem),
    by decide, h.secret⟩

/-- A piece that shows a character is that character, unless it shows a stray byte. -/
theorem eq_char_of_shown {piece : Piece} {c : Char} (hc : c ≠ Text.replacement)
    (h : piece.shown = c) : piece = .char c := by
  cases piece with
  | char d => rw [← h]; rfl
  | stray byte => exact absurd h.symm hc

theorem map_shown_eq_iff {word : List Char} (hword : Text.replacement ∉ word)
    {front : List Piece} : front.map Piece.shown = word ↔ front = word.map .char := by
  constructor
  · rintro rfl
    induction front with
    | nil => rfl
    | cons piece front ih =>
        rw [List.map_cons, List.mem_cons, not_or] at hword
        rw [List.map_cons, List.map_cons, ← ih hword.2,
          ← eq_char_of_shown (fun h => hword.1 h.symm) rfl]
  · rintro rfl
    rw [List.map_map]
    exact List.map_id word

theorem takes_literal_iff {word : String} (hword : Text.replacement ∉ word.toList)
    {front : List Piece} :
    (literal word).Takes (front.map Piece.shown) ↔ front = word.toList.map .char := by
  have halike : Alike false = Eq := by
    funext c d
    simp [Alike]
  rw [literal, Part.Takes, halike, ← map_shown_eq_iff hword]
  simp only [List.mem_singleton, exists_eq_left, List.forall₂_eq_eq_eq]

theorem takes_atLeast_iff {n : Nat} {inClass : Char → Bool} {front : List Piece} :
    (atLeast n inClass).Takes (front.map Piece.shown) ↔
      n ≤ front.length ∧ ∀ piece ∈ front, inClass piece.shown = true := by
  simp [atLeast, Part.Takes]

theorem takes_one_iff {inClass : Char → Bool} {front : List Piece} :
    (exactly 1 inClass).Takes (front.map Piece.shown) ↔
      ∃ piece, front = [piece] ∧ inClass piece.shown = true := by
  simp only [exactly, Part.Takes, Option.mem_def, Option.some.injEq, forall_eq', List.length_map]
  constructor
  · rintro ⟨hleast, hmost, hclass⟩
    obtain ⟨piece, rfl⟩ := List.length_eq_one_iff.mp (Nat.le_antisymm hmost hleast)
    exact ⟨piece, rfl, hclass piece.shown (by simp)⟩
  · rintro ⟨piece, rfl, hclass⟩
    exact ⟨Nat.le_refl 1, Nat.le_refl 1, by simpa using hclass⟩

theorem takes_address_iff {taken : List Piece} :
    addressRule.pattern.Takes (taken.map Piece.shown) ↔
      ∃ scheme user secret, taken = address scheme user secret ∧ IsAddress scheme user secret := by
  have hpattern : addressRule.pattern = [exactly 1 isLetter, atLeast 0 isSchemeChar,
    literal "://", atLeast 1 isUserChar, literal ":", atLeast 1 isSecretChar, literal "@"] := rfl
  have hlead : Text.replacement ∉ "://".toList := by decide
  have hmiddle : Text.replacement ∉ ":".toList := by decide
  have hend : Text.replacement ∉ "@".toList := by decide
  rw [hpattern]
  simp only [takes_cons_iff, takes_nil_iff, takes_one_iff, takes_atLeast_iff,
    takes_literal_iff hlead, takes_literal_iff hmiddle, takes_literal_iff hend]
  constructor
  · rintro ⟨_, _, rfl, ⟨first, rfl, hfirst⟩, rest, _, rfl, ⟨_, hrest⟩, _, _, rfl, rfl, user, _, rfl,
      ⟨huser, huserChars⟩, _, _, rfl, rfl, secret, _, rfl, ⟨hsecret, hsecretChars⟩, _, _, rfl, rfl,
      rfl⟩
    exact ⟨first :: rest, user, secret, rfl, ⟨first, rest, rfl, hfirst, hrest⟩,
      List.ne_nil_of_length_pos huser, huserChars, List.ne_nil_of_length_pos hsecret, hsecretChars⟩
  · rintro ⟨_, user, secret, rfl, ⟨first, rest, rfl, hfirst, hrest⟩, huser, huserChars, hsecret,
      hsecretChars⟩
    exact ⟨[first], rest ++ _, rfl, ⟨first, rfl, hfirst⟩, rest, _, rfl, ⟨Nat.zero_le _, hrest⟩,
      _, _, rfl, rfl,
      user, _, rfl, ⟨List.length_pos_iff.mpr huser, huserChars⟩, _, _, rfl, rfl, secret, _, rfl,
      ⟨List.length_pos_iff.mpr hsecret, hsecretChars⟩, _, _, rfl, rfl, rfl⟩

/-! ## Addresses in redacted texts -/

namespace Token

/-- An address is left whose scheme and separators were kept. -/
def HoldAddress (tokens : List Token) : Prop :=
  ∃ first scheme user secret rest,
    tokens = first ++ (scheme.map kept ++ (kept (.char ':') :: kept (.char '/') ::
      kept (.char '/') :: (user ++ kept (.char ':') :: (secret ++ kept (.char '@') :: rest)))) ∧
    IsAddress scheme (after user) (after secret)

theorem occurs_after_iff {tokens : List Token} :
    addressRule.pattern.occurs (after tokens) = true ↔ HoldAddress tokens := by
  rw [occurs_iff]
  constructor
  · rintro ⟨taken, ⟨front, back, htext⟩, htakes⟩
    obtain ⟨scheme, user, secret, rfl, h⟩ := takes_address_iff.mp htakes
    have hclose : ∀ piece ∈ scheme, piece ≠ .char ']' := by
      rintro piece hmem rfl
      exact absurd (h.isSchemeChar _ hmem) (by decide)
    -- The separators are no characters of the placeholder, so the tokens can be cut there.
    have hcut : .char ':' ∉ mark ∧ .char '@' ∉ mark := by decide
    have hcolon : after tokens = (front ++ scheme) ++ .char ':' :: (.char '/' :: .char '/' ::
        (user ++ .char ':' :: (secret ++ .char '@' :: back))) := by
      rw [← htext, address]
      simp
    obtain ⟨lead, behind, rfl, hlead, hbehind⟩ := cut_at_piece hcut.1 hcolon
    obtain ⟨first, rfl, _⟩ := kept_of_after_eq_concat hclose hlead
    have hslashes : after behind = [.char '/', .char '/'] ++
        (user ++ .char ':' :: (secret ++ .char '@' :: back)) := hbehind
    obtain ⟨named, rfl, hnamed⟩ := kept_of_after_eq_append (by decide) hslashes
    obtain ⟨userTokens, ending, rfl, rfl, hending⟩ := cut_at_piece hcut.1 hnamed
    obtain ⟨secretTokens, rest, rfl, rfl, _⟩ := cut_at_piece hcut.2 hending
    exact ⟨first, scheme, userTokens, secretTokens, rest, by simp, h⟩
  · rintro ⟨first, scheme, user, secret, rest, rfl, h⟩
    refine ⟨address scheme (after user) (after secret), ⟨after first, after rest, ?_⟩,
      takes_address_iff.mpr ⟨scheme, after user, after secret, rfl, h⟩⟩
    simp [address]

/-- Tokens of characters of a class were characters of that class before, if all that was replaced
is of the class. -/
theorem class_before {tokens : List Token} {inClass : Char → Bool}
    (hspans : ∀ taken, span taken ∈ tokens →
      taken ≠ [] ∧ ∀ piece ∈ taken, inClass piece.shown = true)
    (hne : after tokens ≠ []) (hafter : ∀ piece ∈ after tokens, inClass piece.shown = true) :
    before tokens ≠ [] ∧ ∀ piece ∈ before tokens, inClass piece.shown = true := by
  constructor
  · cases tokens with
    | nil => exact absurd rfl hne
    | cons token tokens =>
        cases token with
        | kept piece => exact List.cons_ne_nil _ _
        | span taken =>
            exact List.append_ne_nil_of_left_ne_nil (hspans taken List.mem_cons_self).1 _
  · intro piece hmem
    rcases mem_before hmem with hkept | ⟨taken, hspan, hpiece⟩
    · exact hafter piece (mem_after_of_kept hkept)
    · exact (hspans taken hspan).2 piece hpiece

/-- An address that is left was there before, if nothing was replaced that ends a name. -/
theorem occurs_before {tokens : List Token} (h : HoldAddress tokens)
    (hspans : ∀ taken, span taken ∈ tokens →
      taken ≠ [] ∧ ∀ piece ∈ taken, isUserChar piece.shown = true) :
    addressRule.pattern.occurs (before tokens) = true := by
  obtain ⟨first, scheme, user, secret, rest, rfl, h⟩ := h
  have huser := class_before (fun taken hmem => hspans taken (by simp [hmem])) h.user_ne h.user
  have hsecret : before secret ≠ [] ∧ ∀ piece ∈ before secret, isSecretChar piece.shown = true := by
    refine class_before (fun taken hmem => ?_) h.secret_ne h.secret
    obtain ⟨hne, hclass⟩ := hspans taken (by simp [hmem])
    exact ⟨hne, fun piece hpiece => isSecretChar_of_isUserChar (hclass piece hpiece)⟩
  have haddress : IsAddress scheme (before user) (before secret) :=
    ⟨h.scheme, huser.1, huser.2, hsecret.1, hsecret.2⟩
  refine occurs_iff.mpr ⟨address scheme (before user) (before secret),
    ⟨before first, before rest, ?_⟩, takes_address_iff.mpr ⟨_, _, _, rfl, haddress⟩⟩
  simp [address]

/-- The rule leaves no address. -/
theorem not_holdAddress_own {tokens : List Token} (h : addressRule.pattern.Splits tokens) :
    ¬HoldAddress tokens := by
  rintro ⟨first, scheme, user, secret, rest, rfl, haddress⟩
  -- It is enough to find an address in the text before that begins with the same scheme.
  have hfound : ∀ user' secret' : List Piece, IsAddress scheme user' secret' →
      ¬address scheme user' secret' <+: scheme ++ (.char ':' :: .char '/' :: .char '/' ::
        (before user ++ .char ':' :: (before secret ++ .char '@' :: before rest))) := by
    intro user' secret' haddress' hprefix
    refine h.not_takes_of_kept haddress.scheme_ne ?_
      (takes_address_iff.mpr ⟨scheme, user', secret', rfl, haddress'⟩)
    simpa using hprefix
  rcases kept_front user with ⟨us, rfl⟩ | ⟨us, taken, more, rfl⟩
  · have huser : us ≠ [] ∧ ∀ piece ∈ us, isUserChar piece.shown = true := by
      simpa using And.intro haddress.user_ne haddress.user
    rcases kept_front secret with ⟨ss, rfl⟩ | ⟨ss, taken, more, rfl⟩
    · have hsecret : ss ≠ [] ∧ ∀ piece ∈ ss, isSecretChar piece.shown = true := by
        simpa using And.intro haddress.secret_ne haddress.secret
      exact hfound us ss ⟨haddress.scheme, huser.1, huser.2, hsecret.1, hsecret.2⟩
        ⟨before rest, by simp [address]⟩
    · -- The password goes on to the end of the address that was replaced first in it.
      obtain ⟨scheme', user', secret', rfl, htaken⟩ :=
        takes_address_iff.mp (h.takes_of_mem (show span taken ∈ _ by simp))
      refine hfound us (ss ++ (scheme' ++ (.char ':' :: .char '/' :: .char '/' ::
          (user' ++ .char ':' :: secret'))))
        ⟨haddress.scheme, huser.1, huser.2, by simp, ?_⟩
        ⟨before more ++ .char '@' :: before rest, by simp [address]⟩
      have hkept : ∀ piece ∈ ss, isSecretChar piece.shown = true := fun piece hmem =>
        haddress.secret piece (by simp [hmem])
      rw [List.forall_mem_append, List.forall_mem_append, List.forall_mem_cons]
      exact ⟨hkept, fun piece hmem => isSecretChar_of_isUserChar
        (isUserChar_of_isSchemeChar (htaken.isSchemeChar piece hmem)), by decide,
        htaken.isSecretChar_behind⟩
  · -- The name goes on to the end of the scheme of the address that was replaced first in it.
    obtain ⟨scheme', user', secret', rfl, htaken⟩ :=
      takes_address_iff.mp (h.takes_of_mem (show span taken ∈ _ by simp))
    refine hfound (us ++ scheme') (.char '/' :: .char '/' :: (user' ++ .char ':' :: secret'))
      ⟨haddress.scheme, by simp [htaken.scheme_ne], ?_, by simp, htaken.isSecretChar_behind⟩
      ⟨before more ++ .char ':' :: (before secret ++ .char '@' :: before rest), by simp [address]⟩
    have hkept : ∀ piece ∈ us, isUserChar piece.shown = true := fun piece hmem =>
      haddress.user piece (by simp [hmem])
    rw [List.forall_mem_append]
    exact ⟨hkept, fun piece hmem => isUserChar_of_isSchemeChar (htaken.isSchemeChar piece hmem)⟩

end Token

/-! ## Addresses in the text that the last rule is applied to -/

theorem addressRule_mem : addressRule ∈ rules := List.get_mem rules _

theorem fires_apply_iff {rule : Rule} (hsome : ¬rule.pattern.Takes []) {text : Text} :
    addressRule.fires (rule.apply text) = true ↔
      Token.HoldAddress (rule.pattern.tokens text.pieces) := by
  rw [Rule.fires, pieces_apply hsome, Token.occurs_after_iff]

/-- A rule that takes nothing that ends a name makes no address. -/
theorem address_fires_of_fires_apply {rule : Rule} (hsome : ¬rule.pattern.Takes [])
    (havoids : userStops.all (rule.pattern.avoids ·) = true) {text : Text}
    (h : addressRule.fires (rule.apply text) = true) : addressRule.fires text = true := by
  have hsplits := splits_tokens hsome text.pieces
  have hfound := Token.occurs_before ((fires_apply_iff hsome).mp h) fun taken hmem => by
    have htakes := hsplits.takes_of_mem hmem
    refine ⟨?_, fun piece hpiece => isUserChar_iff.mpr fun hstop => ?_⟩
    · rintro rfl
      exact hsome htakes
    · exact Pattern.not_mem_of_avoids (List.all_eq_true.mp havoids _ hstop) htakes
        (List.mem_map_of_mem hpiece)
  rwa [before_tokens hsome] at hfound

/-- The rules between the one for addresses and the last one. -/
def tokenRules : List Rule := [rules.get ⟨9, by decide⟩, rules.get ⟨10, by decide⟩]

private theorem tokenRules_avoid :
    ∀ rule ∈ tokenRules, userStops.all (rule.pattern.avoids ·) = true := by
  have hall : tokenRules.all (fun rule => userStops.all (rule.pattern.avoids ·)) = true := by
    decide
  exact List.all_eq_true.mp hall

private theorem address_fires_of_fires_applyAll {applied : List Rule} (happlied : applied ⊆ rules)
    (havoids : ∀ rule ∈ applied, userStops.all (rule.pattern.avoids ·) = true) {text : Text}
    (h : addressRule.fires (applyAll applied text) = true) : addressRule.fires text = true := by
  induction applied generalizing text with
  | nil => exact h
  | cons rule applied ih =>
      rw [List.cons_subset] at happlied
      rw [List.forall_mem_cons] at havoids
      exact address_fires_of_fires_apply (not_takes_nil_of_mem rule happlied.1) havoids.1
        (ih happlied.2 havoids.2 h)

/-- No address is left before the last rule. -/
theorem not_fires_address (text : Text) :
    ¬addressRule.fires (applyAll rules.dropLast text) = true := by
  intro h
  have hrules : rules.dropLast = rules.take 8 ++ addressRule :: tokenRules := rfl
  have htokens : tokenRules ⊆ rules := by
    intro rule hmem
    refine List.dropLast_subset rules ?_
    rw [hrules]
    exact List.mem_append_right _ (List.mem_cons_of_mem _ hmem)
  have hsome := not_takes_nil_of_mem addressRule addressRule_mem
  rw [hrules, applyAll_append, applyAll_cons] at h
  have hown := address_fires_of_fires_applyAll htokens tokenRules_avoid h
  exact Token.not_holdAddress_own (splits_tokens hsome _) ((fires_apply_iff hsome).mp hown)

end Shortfall.Redaction

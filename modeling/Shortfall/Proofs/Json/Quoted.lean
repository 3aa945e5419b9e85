import Mathlib.Data.List.Basic
import Shortfall.Json.Quoted
import Shortfall.Proofs.Text.Characters

/-!
# Two ways of reading a quoted text

The strict and the lenient style of reading go through a quoted text at a different pace: a half of
a surrogate pair that finds no partner takes the escape behind it along in the one and not in the
other. They stop at the same quote all the same, since a backslash always hides exactly one byte
from being a quote (`behindQuote`). What they read is the same until they meet such a half, and from
then on both results hold the replacement character, which no name of a member contains.

## Main results

* `behindQuote_of_quotedBytes?`: where reading stops, in either style.
* `quotedBytes?_styles`: what is read, in both styles.
-/

namespace Shortfall.Json

/-! ## The closing quote -/

/-- What stands behind the closing quote of a text. A byte behind a backslash closes nothing. -/
def behindQuote : Text → Option Text
  | [] => none
  | [byte] => if byte = 0x22 then some [] else none
  | byte :: next :: rest =>
      if byte = 0x22 then some (next :: rest)
      else if byte = 0x5C then behindQuote rest
      else behindQuote (next :: rest)

private theorem behindQuote_quote (rest : Text) : behindQuote (0x22 :: rest) = some rest := by
  cases rest <;> simp [behindQuote]

theorem behindQuote_escaped (byte : UInt8) (rest : Text) :
    behindQuote (0x5C :: byte :: rest) = behindQuote rest := by
  simp [behindQuote]

private theorem behindQuote_cons {byte : UInt8} (hquote : byte ≠ 0x22) (hbackslash : byte ≠ 0x5C)
    (rest : Text) : behindQuote (byte :: rest) = behindQuote rest := by
  cases rest <;> simp [behindQuote, hquote, hbackslash]

theorem behindQuote_of_hexValue? {byte : UInt8} {value : Nat} (h : Text.hexValue? byte = some value)
    (rest : Text) : behindQuote (byte :: rest) = behindQuote rest := by
  apply behindQuote_cons
  · rintro rfl
    cases h
  · rintro rfl
    cases h

private theorem behindQuote_of_hexQuad? {text rest : Text} {unit : Nat}
    (h : hexQuad? text = some (unit, rest)) : behindQuote text = behindQuote rest := by
  rw [hexQuad?.eq_def] at h
  split at h
  · next a b c d more =>
      simp only [Option.bind_eq_bind, Option.bind_eq_some_iff, Option.some.injEq,
        Prod.mk.injEq] at h
      obtain ⟨_, ha, _, hb, _, hc, _, hd, _, rfl⟩ := h
      rw [behindQuote_of_hexValue? ha, behindQuote_of_hexValue? hb, behindQuote_of_hexValue? hc,
        behindQuote_of_hexValue? hd]
  · cases h

private theorem behindQuote_of_surrogate? {style : QuoteStyle} {unit : Nat} {text bytes rest : Text}
    (h : surrogate? style unit text = some (bytes, rest)) :
    behindQuote text = behindQuote rest := by
  rw [surrogate?.eq_def] at h
  split at h
  · next more =>
      simp only [Option.bind_eq_bind, Option.bind_eq_some_iff] at h
      obtain ⟨⟨low, behind⟩, hquad, h⟩ := h
      split at h
      · cases h
        rfl
      · cases h
        rw [behindQuote_escaped, behindQuote_of_hexQuad? hquad]
  · cases h
    rfl

/-- An escape hides nothing of what stands behind it. -/
theorem behindQuote_of_escape? {style : QuoteStyle} {text bytes rest : Text}
    (h : escape? style text = some (bytes, rest)) :
    behindQuote (0x5C :: text) = behindQuote rest := by
  rw [escape?.eq_def] at h
  split at h
  case h_9 more =>
    simp only [Option.bind_eq_bind, Option.bind_eq_some_iff] at h
    obtain ⟨⟨unit, behind⟩, hquad, h⟩ := h
    rw [behindQuote_escaped, behindQuote_of_hexQuad? hquad]
    split at h
    · exact behindQuote_of_surrogate? h
    · cases h
      rfl
  case h_10 => cases h
  all_goals
    cases h
    exact behindQuote_escaped _ _

/-- **Reading stops at the closing quote**, in either style. -/
theorem behindQuote_of_quotedBytes? {style : QuoteStyle} {fuel : Nat} {controls : Bool}
    {text bytes rest : Text} (h : quotedBytes? style fuel controls text = some (bytes, rest)) :
    behindQuote text = some rest := by
  induction fuel generalizing controls text bytes with
  | zero => cases h
  | succ fuel ih =>
      cases text with
      | nil => cases h
      | cons byte text =>
          rw [quotedBytes?] at h
          split at h
          · next hquote =>
              cases h
              rw [hquote, behindQuote_quote]
          · next hquote =>
              split at h
              · next hbackslash =>
                  simp only [Option.bind_eq_bind, Option.bind_eq_some_iff] at h
                  obtain ⟨⟨escaped, behind⟩, hescape, ⟨more, after⟩, hmore, h⟩ := h
                  cases h
                  rw [hbackslash, behindQuote_of_escape? hescape, ih hmore]
              · next hbackslash =>
                  split at h
                  · cases h
                  · simp only [Option.bind_eq_bind, Option.bind_eq_some_iff] at h
                    obtain ⟨⟨more, after⟩, hmore, h⟩ := h
                    cases h
                    rw [behindQuote_cons hquote hbackslash, ih hmore]

private theorem behindQuote_of_strictText? {text string rest : Text}
    (h : strictText? text = some (string, rest)) : behindQuote text = some rest := by
  obtain ⟨⟨bytes, after⟩, hread, h⟩ := Option.map_eq_some_iff.mp h
  cases h
  exact behindQuote_of_quotedBytes? hread

/-- Reading stops at the same quote in both styles. -/
theorem strictText?_lenientText?_rest {controls : Bool} {text strict strictRest lenient
    lenientRest : Text} (hstrict : strictText? text = some (strict, strictRest))
    (hlenient : lenientText? controls text = some (lenient, lenientRest)) :
    lenientRest = strictRest := by
  have hend : some lenientRest = some strictRest :=
    (behindQuote_of_quotedBytes? hlenient).symm.trans (behindQuote_of_strictText? hstrict)
  exact Option.some.inj hend

/-! ## The bytes between the quotes -/

/-- The same bytes, or bytes that have been replaced in both of two texts. -/
def SameOrReplaced (bytes others : Text) : Prop :=
  bytes = others ∨ (0xEF : UInt8) ∈ bytes ∧ (0xEF : UInt8) ∈ others

theorem SameOrReplaced.append {front front' back back' : Text}
    (hfront : SameOrReplaced front front') (hback : SameOrReplaced back back') :
    SameOrReplaced (front ++ back) (front' ++ back') := by
  rcases hfront with rfl | ⟨h, h'⟩
  · rcases hback with rfl | ⟨h, h'⟩
    · exact .inl rfl
    · exact .inr ⟨List.mem_append_right _ h, List.mem_append_right _ h'⟩
  · exact .inr ⟨List.mem_append_left _ h, List.mem_append_left _ h'⟩

theorem SameOrReplaced.eq_nil_iff {bytes others : Text} (h : SameOrReplaced bytes others) :
    bytes = [] ↔ others = [] := by
  rcases h with rfl | ⟨h, h'⟩
  · rfl
  · exact iff_of_false (List.ne_nil_of_mem h) (List.ne_nil_of_mem h')

theorem mem_unitBytes_of_isSurrogate {unit : Nat} (h : isSurrogate unit = true) :
    (0xEF : UInt8) ∈ unitBytes unit := by
  rw [unitBytes, if_pos h]
  decide

/-- The two styles read the same at a surrogate, or both replace it. -/
theorem surrogate?_styles {unit : Nat} {text strict strictRest lenient lenientRest : Text}
    (hunit : isSurrogate unit = true)
    (hstrict : surrogate? .strict unit text = some (strict, strictRest))
    (hlenient : surrogate? .lenient unit text = some (lenient, lenientRest)) :
    (strict = lenient ∧ strictRest = lenientRest) ∨
      (0xEF : UInt8) ∈ strict ∧ (0xEF : UInt8) ∈ lenient := by
  rw [surrogate?.eq_def] at hstrict hlenient
  split at hstrict
  · next more =>
      simp only [Option.bind_eq_bind, Option.bind_eq_some_iff] at hstrict hlenient
      obtain ⟨⟨low, behind⟩, hquad, hstrict⟩ := hstrict
      obtain ⟨⟨low', behind'⟩, hquad', hlenient⟩ := hlenient
      obtain ⟨rfl, rfl⟩ := Prod.mk.inj (Option.some.inj (hquad.symm.trans hquad'))
      cases hpair : isPair unit low with
      | true =>
          simp only [hpair] at hstrict hlenient
          cases hstrict
          cases hlenient
          exact .inl ⟨rfl, rfl⟩
      | false =>
          simp only [hpair, unitPairBytes] at hstrict hlenient
          cases hstrict
          cases hlenient
          exact .inr ⟨mem_unitBytes_of_isSurrogate hunit,
            List.mem_append_left _ (mem_unitBytes_of_isSurrogate hunit)⟩
  · next hother =>
      cases hstrict
      split at hlenient
      · exact (hother _ rfl).elim
      · cases hlenient
        exact .inl ⟨rfl, rfl⟩

private theorem escape?_styles {text strict strictRest lenient lenientRest : Text}
    (hstrict : escape? .strict text = some (strict, strictRest))
    (hlenient : escape? .lenient text = some (lenient, lenientRest)) :
    (strict = lenient ∧ strictRest = lenientRest) ∨
      (0xEF : UInt8) ∈ strict ∧ (0xEF : UInt8) ∈ lenient := by
  rw [escape?.eq_def] at hstrict hlenient
  split at hstrict
  case h_9 more =>
    simp only [Option.bind_eq_bind, Option.bind_eq_some_iff] at hstrict hlenient
    obtain ⟨⟨unit, behind⟩, hquad, hstrict⟩ := hstrict
    obtain ⟨⟨unit', behind'⟩, hquad', hlenient⟩ := hlenient
    obtain ⟨rfl, rfl⟩ := Prod.mk.inj (Option.some.inj (hquad.symm.trans hquad'))
    cases hunit : isSurrogate unit with
    | true =>
        rw [if_pos hunit] at hstrict hlenient
        exact surrogate?_styles hunit hstrict hlenient
    | false =>
        rw [hunit] at hstrict hlenient
        cases hstrict
        cases hlenient
        exact .inl ⟨rfl, rfl⟩
  case h_10 => cases hstrict
  all_goals
    cases hstrict
    cases hlenient
    exact .inl ⟨rfl, rfl⟩

/-- **What the two styles read** is the same, unless both had to replace something. -/
theorem quotedBytes?_styles {fuel fuel' : Nat} {controls controls' : Bool}
    {text strict strictRest lenient lenientRest : Text}
    (hstrict : quotedBytes? .strict fuel controls text = some (strict, strictRest))
    (hlenient : quotedBytes? .lenient fuel' controls' text = some (lenient, lenientRest)) :
    SameOrReplaced strict lenient := by
  induction fuel generalizing fuel' controls controls' text strict lenient with
  | zero => cases hstrict
  | succ fuel ih =>
      cases fuel' with
      | zero => cases hlenient
      | succ fuel' =>
          cases text with
          | nil => cases hstrict
          | cons byte text =>
              rw [quotedBytes?] at hstrict hlenient
              by_cases hquote : byte = 0x22
              · rw [if_pos hquote] at hstrict hlenient
                cases hstrict
                cases hlenient
                exact .inl rfl
              rw [if_neg hquote] at hstrict hlenient
              by_cases hbackslash : byte = 0x5C
              · rw [if_pos hbackslash] at hstrict hlenient
                simp only [Option.bind_eq_bind, Option.bind_eq_some_iff] at hstrict hlenient
                obtain ⟨⟨front, behind⟩, hfront, ⟨back, after⟩, hback, hstrict⟩ := hstrict
                obtain ⟨⟨front', behind'⟩, hfront', ⟨back', after'⟩, hback', hlenient⟩ := hlenient
                cases hstrict
                cases hlenient
                rcases escape?_styles hfront hfront' with ⟨rfl, rfl⟩ | ⟨h, h'⟩
                · exact SameOrReplaced.append (.inl rfl) (ih hback hback')
                · exact .inr ⟨List.mem_append_left _ h, List.mem_append_left _ h'⟩
              rw [if_neg hbackslash] at hstrict hlenient
              split at hstrict
              · cases hstrict
              split at hlenient
              · cases hlenient
              simp only [Option.bind_eq_bind, Option.bind_eq_some_iff] at hstrict hlenient
              obtain ⟨⟨back, after⟩, hback, hstrict⟩ := hstrict
              obtain ⟨⟨back', after'⟩, hback', hlenient⟩ := hlenient
              cases hstrict
              cases hlenient
              have hbyte : SameOrReplaced [byte] [byte] := .inl rfl
              exact hbyte.append (ih hback hback')

/-- Both styles read the same name, up to what both replace. -/
theorem exists_sameOrReplaced {controls : Bool} {text strict strictRest lenient lenientRest : Text}
    (hstrict : strictText? text = some (strict, strictRest))
    (hlenient : lenientText? controls text = some (lenient, lenientRest)) :
    ∃ bytes, strict = bytes.mend ∧ SameOrReplaced bytes lenient := by
  obtain ⟨⟨bytes, after⟩, hread, h⟩ := Option.map_eq_some_iff.mp hstrict
  cases h
  exact ⟨bytes, rfl, quotedBytes?_styles hread hlenient⟩

theorem eq_nil_iff_of_styles {controls : Bool} {text strict strictRest lenient lenientRest : Text}
    (hstrict : strictText? text = some (strict, strictRest))
    (hlenient : lenientText? controls text = some (lenient, lenientRest)) :
    lenient = [] ↔ strict = [] := by
  obtain ⟨bytes, rfl, hsame⟩ := exists_sameOrReplaced hstrict hlenient
  rw [← hsame.eq_nil_iff, Text.mend_eq_nil_iff]

end Shortfall.Json

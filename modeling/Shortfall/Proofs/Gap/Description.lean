import Shortfall.Gap.Matching
import Shortfall.Proofs.Text.Delimiters

/-!
# Taking descriptions of vulnerabilities apart

The description of a vulnerability is made of its category, its id and its two places, with fixed
words between them: `… vulnerability … with HIGH severity detected from … to …`. Nothing is
escaped, so two vulnerabilities may have one description. This module says what a description still
determines:

* the category, unless one category goes on where the other ends, with the words that stand behind
  it (`type_eq_or_continues`);
* the risk, unless the category or the id of one vulnerability contains the words that tell the risk
  of the other one (`risk_eq_of_describe_append`).

Both are stated with arbitrary texts behind the descriptions, and the second one with a text in
front of them too, since some gaps say more than the description.
-/

namespace Shortfall.Gap

namespace Severity

theorem risk_mem_scale (severity : Severity) : risk severity ∈ Risk.scale := by
  simp only [risk]
  split_ifs <;> decide

end Severity

namespace Risk

/-- The words of a description that tell the risk. -/
def severityWords (risk : Risk) : Text := "with " ++ risk.name ++ " severity detected"

/-- The words of a description begin with a letter that does not come again. -/
theorem severityWords_eq_cons {risk : Risk} (h : risk ∈ scale) :
    ∃ word : Text, (0x77 : UInt8) ∉ word ∧ risk.severityWords = 0x77 :: word := by
  refine ⟨risk.severityWords.tail, ?_⟩
  revert risk
  decide

private theorem not_blank_mem_name {risk : Risk} (h : risk ∈ scale) :
    (0x20 : UInt8) ∉ risk.name := by
  revert risk
  decide

theorem name_injOn_scale {risk other : Risk} (h : risk ∈ scale) (hother : other ∈ scale)
    (hname : risk.name = other.name) : risk = other := by
  have hall : ∀ risk ∈ scale, ∀ other ∈ scale, risk.name = other.name → risk = other := by decide
  exact hall risk h other hother hname

/-- The words that tell a risk tell one only, whatever follows them. -/
theorem severityWords_append_inj {risk other : Risk} {rest behind : Text} (h : risk ∈ scale)
    (hother : other ∈ scale)
    (hwords : risk.severityWords ++ rest = other.severityWords ++ behind) :
    risk = other ∧ rest = behind := by
  simp only [severityWords, List.append_assoc, List.append_cancel_left_eq] at hwords
  have hcut : risk.name = other.name ∧ _ :=
    Text.append_cons_inj (not_blank_mem_name h) (not_blank_mem_name hother) hwords
  exact ⟨name_injOn_scale h hother hcut.1, List.append_cancel_left hcut.2⟩

end Risk

/-! ## The parts of a description -/

/-- The words behind the category. -/
def categoryWords : Text := " vulnerability"

private theorem categoryWords_eq_cons :
    ∃ word : Text, (0x20 : UInt8) ∉ word ∧ categoryWords = 0x20 :: word :=
  ⟨categoryWords.tail, by decide, by decide⟩

namespace Vulnerability

/-- The id with a blank behind it, where there is one. -/
def idPart (v : Vulnerability) : Text := if v.id.isEmpty then [] else v.id ++ [0x20]

/-- The two places. -/
def placesPart (v : Vulnerability) : Text :=
  ledBy " from " v.source.text ++ ledBy " to " v.sink.text

/-- Everything behind the words that follow the category. -/
def behindCategory (v : Vulnerability) : Text :=
  v.idPart ++ ((Severity.risk v.severity).severityWords ++ v.placesPart)

end Vulnerability

open Vulnerability

theorem describe_eq (v : Vulnerability) :
    describe v = v.type ++ (categoryWords ++ 0x20 :: v.behindCategory) := by
  -- The blank in front of an id is there without an id too, as that of the words behind it.
  have hid : ∀ rest : Text, ledBy " " v.id ++ 0x20 :: rest = 0x20 :: (v.idPart ++ rest) := by
    intro rest
    rw [ledBy, idPart]
    cases v.id with
    | nil => rfl
    | cons byte more => simp [show Text.ofString " " = [0x20] from rfl]
  have hwith : (" with " : Text) = 0x20 :: ("with " : Text) := rfl
  simp only [describe, behindCategory, placesPart, categoryWords, Risk.severityWords,
    List.append_assoc, List.cons_append, hwith, hid]

theorem categoryWords_infix_describe (v : Vulnerability) : categoryWords <:+: describe v :=
  ⟨v.type, 0x20 :: v.behindCategory, by rw [describe_eq, List.append_assoc]⟩

theorem not_categoryWords_infix_noRequirements : ¬categoryWords <:+: noRequirements := by
  rw [← Text.occursIn_iff]
  decide

/-- Of two vulnerabilities with one description, either both have the same category, or one category
goes on behind the other one with the words that follow it. -/
theorem type_eq_or_continues {v w : Vulnerability} {rest behind : Text}
    (h : describe v ++ rest = describe w ++ behind) :
    v.type = w.type ∨ v.type ++ categoryWords <+: w.type ∨ w.type ++ categoryWords <+: v.type := by
  obtain ⟨word, hfirst, hwords⟩ := categoryWords_eq_cons
  simp only [describe_eq, List.append_assoc, hwords] at h ⊢
  rcases List.append_eq_append_iff.mp h with ⟨more, hmore, hrest⟩ | ⟨more, hmore, hrest⟩
  · rcases Text.eq_nil_or_starts_with_delimiter hfirst hrest with rfl | hstarts
    · exact .inl (by rw [hmore, List.append_nil])
    · exact .inr (.inl (hmore ▸ (List.prefix_append_right_inj _).mpr hstarts))
  · rcases Text.eq_nil_or_starts_with_delimiter hfirst hrest with rfl | hstarts
    · exact .inl (by rw [hmore, List.append_nil])
    · exact .inr (.inr (hmore ▸ (List.prefix_append_right_inj _).mpr hstarts))

/-- A description determines the category that does not contain the words behind it, and with it
everything that follows. -/
theorem describe_append_inj {v w : Vulnerability} {rest behind : Text}
    (hv : ¬categoryWords <:+: v.type) (hw : ¬categoryWords <:+: w.type)
    (h : describe v ++ rest = describe w ++ behind) :
    v.type = w.type ∧ v.behindCategory ++ rest = w.behindCategory ++ behind := by
  have htype : v.type = w.type := by
    rcases type_eq_or_continues h with hsame | hlonger | hlonger
    · exact hsame
    · exact absurd ((List.suffix_append _ _).isInfix.trans hlonger.isInfix) hw
    · exact absurd ((List.suffix_append _ _).isInfix.trans hlonger.isInfix) hv
  simp only [describe_eq, List.append_assoc, htype] at h
  have hrest := List.append_cancel_left (List.append_cancel_left h)
  exact ⟨htype, (List.cons.inj hrest).2⟩

/-! ## The risk that a description tells -/

namespace Vulnerability

/-- Everything in front of the words that tell the risk. -/
def beforeSeverity (v : Vulnerability) : Text := v.type ++ (categoryWords ++ 0x20 :: v.idPart)

/-- Whether the category or the id of `v` contains the words that tell the risk of `w`. -/
def tellsRiskOf (v w : Vulnerability) : Bool :=
  (Severity.risk w.severity).severityWords.occursIn v.type
    || (Severity.risk w.severity).severityWords.occursIn v.id

private theorem not_infix_of_tellsRiskOf {v w : Vulnerability} (h : v.tellsRiskOf w = false) :
    ¬(Severity.risk w.severity).severityWords <:+: v.type ∧
      ¬(Severity.risk w.severity).severityWords <:+: v.id := by
  obtain ⟨htype, hid⟩ := Bool.or_eq_false_iff.mp h
  rw [← Text.occursIn_iff, ← Text.occursIn_iff, htype, hid]
  exact ⟨Bool.false_ne_true, Bool.false_ne_true⟩

end Vulnerability

private theorem describe_eq_beforeSeverity (v : Vulnerability) :
    describe v =
      v.beforeSeverity ++ ((Severity.risk v.severity).severityWords ++ v.placesPart) := by
  simp only [describe_eq, beforeSeverity, behindCategory, List.append_assoc, List.cons_append]

namespace Risk

/-- The words that tell a risk end with a letter. -/
theorem getLast?_severityWords {risk : Risk} (h : risk ∈ scale) :
    risk.severityWords.getLast? = some 0x64 := by
  revert risk
  decide

/-- They do not begin in a text with a blank behind it and end with that blank. -/
theorem severityWords_infix_concat {risk : Risk} {text : Text} (h : risk ∈ scale)
    (hoccurs : risk.severityWords <:+: text ++ [0x20]) : risk.severityWords <:+: text := by
  have hlast := getLast?_severityWords h
  rcases List.infix_concat_iff.mp hoccurs with hends | hinside
  · rcases List.suffix_concat_iff.mp hends with hnil | ⟨front, hfront, _⟩
    · rw [hnil] at hlast
      cases hlast
    · rw [hfront, List.getLast?_concat] at hlast
      exact absurd hlast (by decide)
  · exact hinside

/-- They do not begin in a category and end in the words behind it. -/
theorem severityWords_infix_append_categoryWords {risk : Risk} {text rest : Text} (h : risk ∈ scale)
    (hoccurs : risk.severityWords <:+: text ++ (categoryWords ++ rest)) :
    risk.severityWords <:+: text ∨ risk.severityWords <:+: categoryWords ++ rest := by
  have hapart : ∀ risk ∈ scale, ¬[0x20, 0x76] <:+: risk.severityWords := by
    simp only [← Text.occursIn_iff]
    decide
  have hwords : categoryWords = 0x20 :: 0x76 :: categoryWords.tail.tail := by decide
  rcases List.infix_append_iff.mp hoccurs with
    hinside | hbehind | ⟨start, remainder, hsplit, hstart, hremainder⟩
  · exact .inl hinside
  · exact .inr hbehind
  · left
    rw [hwords] at hremainder
    match remainder, hremainder with
    | [], _ =>
        rw [hsplit, List.append_nil]
        exact hstart.isInfix
    | [byte], hremainder =>
        have hblank : byte = 0x20 := (List.cons_prefix_cons.mp hremainder).1
        have hlast := getLast?_severityWords h
        rw [hsplit, hblank, List.getLast?_concat] at hlast
        exact absurd hlast (by decide)
    | byte :: next :: more, hremainder =>
        obtain ⟨hblank, hnext⟩ := List.cons_prefix_cons.mp hremainder
        have hletter : next = 0x76 := (List.cons_prefix_cons.mp hnext).1
        refine absurd ⟨start, more, ?_⟩ (hapart risk h)
        rw [hsplit, hblank, hletter, List.append_assoc]
        rfl

end Risk

/-- Only the category and the id can bring the words of a risk in front of those that tell it. -/
theorem Vulnerability.not_severityWords_infix_beforeSeverity {v w : Vulnerability}
    (h : v.tellsRiskOf w = false) :
    ¬(Severity.risk w.severity).severityWords <:+: v.beforeSeverity := by
  intro hoccurs
  have hrisk := Severity.risk_mem_scale w.severity
  obtain ⟨htype, hid⟩ := not_infix_of_tellsRiskOf h
  obtain ⟨word, _, hwords⟩ := Risk.severityWords_eq_cons hrisk
  rcases Risk.severityWords_infix_append_categoryWords hrisk hoccurs with hinside | hbehind
  · exact htype hinside
  · rw [hwords, List.append_cons] at hbehind
    have hpart := Text.occurs_behind_lead (by decide) hbehind
    rw [← hwords, idPart] at hpart
    split at hpart
    · rw [List.infix_nil.mp hpart] at hwords
      cases hwords
    · exact hid (Risk.severityWords_infix_concat hrisk hpart)

/-- Two vulnerabilities with one description have one risk, if neither has in its category or id the
words that tell the risk of the other one. A lead in front of the description must not contain the
first letter of these words. -/
theorem risk_eq_of_describe_append {v w : Vulnerability} {lead start rest behind : Text}
    (hv : v.tellsRiskOf w = false) (hw : w.tellsRiskOf v = false) (hlead : (0x77 : UInt8) ∉ lead)
    (hstart : (0x77 : UInt8) ∉ start)
    (h : lead ++ (describe v ++ rest) = start ++ (describe w ++ behind)) :
    Severity.risk v.severity = Severity.risk w.severity := by
  have hvrisk := Severity.risk_mem_scale v.severity
  have hwrisk := Severity.risk_mem_scale w.severity
  obtain ⟨word, hword, hvwords⟩ := Risk.severityWords_eq_cons hvrisk
  obtain ⟨other, hother, hwwords⟩ := Risk.severityWords_eq_cons hwrisk
  have hvfree : ¬0x77 :: other <:+: lead ++ v.beforeSeverity := by
    intro hoccurs
    refine not_severityWords_infix_beforeSeverity hv ?_
    exact hwwords ▸ Text.occurs_behind_lead hlead hoccurs
  have hwfree : ¬0x77 :: word <:+: start ++ w.beforeSeverity := by
    intro hoccurs
    refine not_severityWords_infix_beforeSeverity hw ?_
    exact hvwords ▸ Text.occurs_behind_lead hstart hoccurs
  -- So the words stand in the same place of both texts, and tell the same risk.
  simp only [describe_eq_beforeSeverity, List.append_assoc] at h
  rw [← List.append_assoc lead, ← List.append_assoc start] at h
  have hfront : lead ++ v.beforeSeverity = start ++ w.beforeSeverity := by
    rw [hvwords, hwwords] at h
    exact Text.front_eq_of_append_delimiter hword hother h hvfree hwfree
  rw [hfront] at h
  exact (Risk.severityWords_append_inj hvrisk hwrisk (List.append_cancel_left h)).1

end Shortfall.Gap

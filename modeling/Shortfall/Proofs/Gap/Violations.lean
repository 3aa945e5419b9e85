import Mathlib.Data.List.Perm.Subperm
import Shortfall.Gap.Classification
import Shortfall.Proofs.Catalog.Tags
import Shortfall.Proofs.Gap.Description
import Shortfall.Proofs.Gap.Strategies

/-!
# Violations reach the result of an analysis

The violations found in one unit are handed to the detector as vulnerabilities. None of them is
lost on the way, and none comes out with a lower risk than it went in with.

The descriptions of the vulnerabilities of a unit are all different: their categories contain no
blank, so each description is cut after its category, and behind the name of the unit stands the
number of the violation, which no other one has. A gap that tells of a violation therefore tells of
no other one, and deduplication, which keeps one gap of every key, keeps one for each violation.

## Main result

* `every_violation_reported`: each violation has a gap of its own in the result.
-/

namespace Shortfall.Gap

open Taint (Violation ViolationKind)

section Descriptions

variable {catalog : Catalog} {unit : Text}

private theorem blank_not_mem_specificCategory {kind : ViolationKind} {category : Text}
    (h : specificCategory? kind = some category) : (0x20 : UInt8) ∉ category := by
  unfold specificCategory? at h
  split_ifs at h <;> cases h <;> decide

private theorem idPart_ofViolation (catalog : Catalog) (unit : Text) (number : Nat)
    (violation : Violation) :
    (Vulnerability.ofViolation catalog unit number violation).idPart =
      unit ++ (("#" : Text) ++ (Text.ofNat number ++ [0x20])) := by
  have hid : (Vulnerability.ofViolation catalog unit number violation).id =
      (unit ++ ("#" ++ Text.ofNat number) : Text) := by
    rw [Vulnerability.ofViolation, List.append_assoc]
  have hne : (unit ++ ("#" ++ Text.ofNat number) : Text) ≠ [] := by
    simp [Text.ofNat_ne_nil number]
  rw [Vulnerability.idPart, hid, if_neg (by rwa [List.isEmpty_iff])]
  simp only [List.append_assoc]

/-- A violation keeps its severity. -/
theorem risk_ofViolation (catalog : Catalog) (unit : Text) (number : Nat) (violation : Violation) :
    Severity.risk (Vulnerability.ofViolation catalog unit number violation).severity =
      Risk.ofTaintSeverity violation.severity := by
  have hname : ∀ severity : Taint.Severity,
      Severity.risk (Risk.ofTaintSeverity severity).name = Risk.ofTaintSeverity severity := by
    intro severity
    cases severity <;> decide
  exact hname violation.severity

theorem mem_vulnerabilitiesFrom {first : Nat} {violations : List Violation} {v : Vulnerability}
    (h : v ∈ vulnerabilitiesFrom catalog unit first violations) :
    ∃ number violation, first ≤ number ∧ v = .ofViolation catalog unit number violation := by
  induction violations generalizing first with
  | nil => cases h
  | cons violation rest ih =>
      rcases List.mem_cons.mp h with rfl | hrest
      · exact ⟨first, violation, Nat.le_refl first, rfl⟩
      · obtain ⟨number, other, hle, hv⟩ := ih hrest
        exact ⟨number, other, by omega, hv⟩

private theorem length_vulnerabilitiesFrom (catalog : Catalog) (unit : Text) (first : Nat)
    (violations : List Violation) :
    (vulnerabilitiesFrom catalog unit first violations).length = violations.length := by
  induction violations generalizing first with
  | nil => rfl
  | cons violation rest ih => rw [vulnerabilitiesFrom, List.length_cons, ih, List.length_cons]

/-- The vulnerability in the place of a violation is made of it. -/
theorem of_mem_zip_vulnerabilitiesFrom {first : Nat} {violations : List Violation}
    {violation : Violation} {v : Vulnerability}
    (h : (violation, v) ∈ violations.zip (vulnerabilitiesFrom catalog unit first violations)) :
    ∃ number, v = .ofViolation catalog unit number violation := by
  induction violations generalizing first with
  | nil => cases h
  | cons other rest ih =>
      rw [vulnerabilitiesFrom, List.zip_cons_cons] at h
      rcases List.mem_cons.mp h with hfirst | hrest
      · cases hfirst
        exact ⟨first, rfl⟩
      · exact ih hrest

variable (hbuilt : ∀ category ∈ catalog.categories, (0x20 : UInt8) ∉ category.id)

include hbuilt

private theorem blank_not_mem_categoryOf (violation : Violation) :
    (0x20 : UInt8) ∉ categoryOf catalog violation := by
  unfold categoryOf
  split
  case h_1 category hspecific => exact blank_not_mem_specificCategory hspecific
  case h_2 =>
    split
    case h_1 category hsink =>
      obtain ⟨sink, _, hcategory⟩ := List.exists_of_findSome?_eq_some hsink
      obtain ⟨known, hknown, rfl⟩ := Option.map_eq_some_iff.mp hcategory
      exact hbuilt known (List.mem_of_find?_eq_some hknown)
    case h_2 => exact Catalog.blank_not_mem_normalizeId violation.kind

/-! ## Descriptions of violations -/

private theorem not_categoryWords_infix_categoryOf (violation : Violation) :
    ¬categoryWords <:+: categoryOf catalog violation := by
  intro hoccurs
  exact blank_not_mem_categoryOf hbuilt violation (hoccurs.subset (by decide))

/-- The description of a violation tells its number. -/
theorem number_eq_of_describe {m n : Nat} {x y : Violation}
    (h : describe (.ofViolation catalog unit m x) = describe (.ofViolation catalog unit n y)) :
    m = n := by
  have hbehind := (describe_append_inj (v := .ofViolation catalog unit m x)
    (not_categoryWords_infix_categoryOf hbuilt x) (not_categoryWords_infix_categoryOf hbuilt y)
    (congrArg (· ++ []) h)).2
  simp only [Vulnerability.behindCategory, idPart_ofViolation, List.append_assoc,
    List.append_cancel_left_eq] at hbehind
  have hdigits : ∀ number, (0x20 : UInt8) ∉ Text.ofNat number := by
    intro number hmem
    exact absurd (Text.isDigit_of_mem_ofNat hmem) (by decide)
  exact Text.ofNat_injective (Text.append_cons_inj (hdigits m) (hdigits n) hbehind).1

/-- **No two violations of a unit are described alike.** -/
theorem nodup_describe_vulnerabilitiesFrom (unit : Text) (first : Nat)
    (violations : List Violation) :
    ((vulnerabilitiesFrom catalog unit first violations).map describe).Nodup := by
  induction violations generalizing first with
  | nil => exact List.nodup_nil
  | cons violation rest ih =>
      rw [vulnerabilitiesFrom, List.map_cons, List.nodup_cons]
      refine ⟨?_, ih (first + 1)⟩
      intro hmem
      obtain ⟨v, hv, hsame⟩ := List.mem_map.mp hmem
      obtain ⟨number, other, hle, rfl⟩ := mem_vulnerabilitiesFrom hv
      have hnumber : number = first := number_eq_of_describe hbuilt hsame
      omega

end Descriptions

/-! ## Gaps with the description of a violation -/

private theorem rank_risk_le_mappedRisk (intent : TestIntent) (v : Vulnerability) :
    (Severity.risk v.severity).rank ≤ (mappedRisk intent v).rank := by
  have hscale : ∀ risk ∈ Risk.scale, risk.rank ≤ Risk.critical.rank := by decide
  unfold mappedRisk
  split
  · exact hscale _ (Severity.risk_mem_scale v.severity)
  · exact Int.le_refl _

private theorem noRequirements_ne_describe (v : Vulnerability) : noRequirements ≠ describe v := by
  intro hsame
  exact not_categoryWords_infix_noRequirements (hsame ▸ categoryWords_infix_describe v)

/-- A description in which the category has no blank is not the text of a mismatch. -/
theorem mismatch_ne_describe (finder : Finder) (intent : TestIntent) (v : Vulnerability)
    {w : Vulnerability} (hblank : (0x20 : UInt8) ∉ w.type) :
    (finder.mismatchGap intent v).actualImplementation ≠ describe w := by
  intro hsame
  obtain ⟨rest, hrest⟩ : ∃ rest, (finder.mismatchGap intent v).actualImplementation =
      ("Risk" : Text) ++ 0x20 :: (("under-estimated: " : Text) ++ rest) := by
    refine ⟨describe v ++ ", above the declared " ++ intent.risk.name, ?_⟩
    simp only [Finder.mismatchGap, ← List.append_assoc]
    rfl
  rw [hrest, describe_eq] at hsame
  have hcut := (Text.append_cons_inj (by decide) hblank hsame).2
  have hletter : some (0x75 : UInt8) = some 0x76 := congrArg List.head? hcut
  exact absurd hletter (by decide)

/-- A gap that tells of a vulnerability whose category has no blank is the gap of a vulnerability
with the same description, and has at least its risk. -/
theorem exists_finding_of_gap {finder : Finder} {input : Input} {gap : SecurityGap}
    {v : Vulnerability} (hblank : (0x20 : UInt8) ∉ v.type) (hgap : gap ∈ finder.defaultGaps input)
    (hactual : gap.actualImplementation = describe v) :
    ∃ w ∈ input.vulnerabilities, describe w = describe v ∧
      (Severity.risk w.severity).rank ≤ gap.risk.rank := by
  rcases Finder.mem_defaultGaps.mp hgap with hmapping | hcoverage | hmismatch | horphan
  · obtain ⟨intent, _, w, hw, _, rfl⟩ := Finder.mem_mappingGaps.mp hmapping
    exact ⟨w, hw, hactual, rank_risk_le_mappedRisk intent w⟩
  · obtain ⟨intent, _, _, rfl⟩ := Finder.mem_coverageGaps.mp hcoverage
    exact absurd hactual (noRequirements_ne_describe v)
  · obtain ⟨intent, _, w, _, _, _, rfl⟩ := Finder.mem_mismatchGaps.mp hmismatch
    exact absurd hactual (mismatch_ne_describe finder intent w hblank)
  · obtain ⟨w, hw, _, rfl⟩ := Finder.mem_orphanGaps.mp horphan
    exact ⟨w, hw, hactual, Int.le_refl _⟩

/-! ## The result of an analysis -/

/-- Deduplication keeps a gap for each violation, whatever comes behind the gaps of the default
strategy. -/
theorem exists_kept_of_violation {catalog : Catalog}
    (hbuilt : ∀ category ∈ catalog.categories, (0x20 : UInt8) ∉ category.id) {unit : Text}
    {violations : List Violation} {violation : Violation} {v : Vulnerability}
    (hzip : (violation, v) ∈ violations.zip (vulnerabilitiesOf catalog unit violations))
    (intents : List TestIntent) (others : List SecurityGap) :
    ∃ gap ∈ deduplicate
        (gapsOfDefault catalog ⟨intents, vulnerabilitiesOf catalog unit violations⟩ ++ others),
      gap.actualImplementation = describe v ∧
        (Risk.ofTaintSeverity violation.severity).rank ≤ gap.risk.rank := by
  have hv : v ∈ vulnerabilitiesOf catalog unit violations := (List.of_mem_zip hzip).2
  have hexists : ∃ gap ∈ gapsOfDefault catalog ⟨intents, vulnerabilitiesOf catalog unit violations⟩,
      gap.actualImplementation = describe v := Finder.exists_gap_of_finding _ hv
  obtain ⟨found, hfound, hactual⟩ := hexists
  -- The gap that is kept tells of the same violation, whichever analysis it comes from.
  obtain ⟨kept, hkept, hfront, hkey⟩ := exists_mem_deduplicate_append hfound others
  have hsame : kept.actualImplementation = describe v := by
    rw [← hactual]
    exact congrArg (·.2.2) hkey
  obtain ⟨number, rfl⟩ := of_mem_zip_vulnerabilitiesFrom hzip
  obtain ⟨w, hw, hdescribe, hrank⟩ :=
    exists_finding_of_gap (blank_not_mem_categoryOf hbuilt violation) hfront hsame
  have hwv := List.inj_on_of_nodup_map
    (nodup_describe_vulnerabilitiesFrom hbuilt unit 1 violations) hw hv hdescribe
  rw [hwv, risk_ofViolation] at hrank
  exact ⟨kept, hkept, hsame, hrank⟩

/-- **Every violation of a unit is reported.** With any catalog, any tests and any additional
strategies, each violation has a gap with its own description and at least its own risk, so that
there are at least as many gaps as violations. -/
theorem every_violation_reported (categories : List Category) (catalog : Catalog)
    (hbuilt : Catalog.build categories = .ok catalog) (unit : Text) (violations : List Violation)
    (intents : List TestIntent) (request : Request)
    (hinput : request.input = .ok ⟨intents, vulnerabilitiesOf catalog unit violations⟩)
    (detector : Detector) (hprimary : detector.primary = .default catalog) :
    (vulnerabilitiesOf catalog unit violations).length = violations.length ∧
      ((vulnerabilitiesOf catalog unit violations).map describe).Nodup ∧
      ∃ result, (detector.analyze request).value = .ok result ∧
        (∀ violation v,
          (violation, v) ∈ violations.zip (vulnerabilitiesOf catalog unit violations) →
          ∃ gap ∈ result.gaps, gap.actualImplementation = describe v ∧
            (Risk.ofTaintSeverity violation.severity).rank ≤ gap.risk.rank) ∧
        violations.length ≤ result.gaps.length := by
  have hids := Catalog.blank_not_mem_of_build hbuilt
  have hlength : (vulnerabilitiesOf catalog unit violations).length = violations.length :=
    length_vulnerabilitiesFrom catalog unit 1 violations
  have hnodup : ((vulnerabilitiesOf catalog unit violations).map describe).Nodup :=
    nodup_describe_vulnerabilitiesFrom hids unit 1 violations
  have hreported : ∀ violation v,
      (violation, v) ∈ violations.zip (vulnerabilitiesOf catalog unit violations) → _ :=
    fun violation v hzip => exists_kept_of_violation hids hzip intents
      (detector.additional.flatMap (·.contribution request))
  refine ⟨hlength, hnodup, _, Detector.value_analyze_of_default hinput hprimary, hreported, ?_⟩
  -- Distinct descriptions, each of them that of a gap, are no more than the gaps.
  have hsubset : (vulnerabilitiesOf catalog unit violations).map describe ⊆
      (deduplicate (gapsOfDefault catalog ⟨intents, vulnerabilitiesOf catalog unit violations⟩
        ++ detector.additional.flatMap (·.contribution request))).map (·.actualImplementation) := by
    intro text htext
    obtain ⟨v, hv, rfl⟩ := List.mem_map.mp htext
    have hsnd : (violations.zip (vulnerabilitiesOf catalog unit violations)).map Prod.snd =
        vulnerabilitiesOf catalog unit violations := List.map_snd_zip (Nat.le_of_eq hlength)
    rw [← hsnd] at hv
    obtain ⟨⟨violation, v⟩, hzip, rfl⟩ := List.mem_map.mp hv
    obtain ⟨gap, hgap, hactual, _⟩ := hreported violation v hzip
    exact List.mem_map.mpr ⟨gap, hgap, hactual⟩
  have hle := (List.subperm_of_subset hnodup hsubset).length_le
  rwa [List.length_map, List.length_map, hlength] at hle

def scriptViolation : Violation where
  kind := ViolationKind.xss
  severity := .critical

/-- Violations that differ in nothing, and so many that the numbers of two of them begin alike. -/
def elevenAlike : List Violation := List.replicate 11 scriptViolation

def elevenRequest : Request where
  intent? := some {
    testIntents? := some [{ testName := "script", securityRequirements := ["sql"] }] }
  taint? := some { vulnerabilities? := some (vulnerabilitiesOf Catalog.builtin "f" elevenAlike) }

def builtinWithSemantic : Detector where
  config := {}
  primary := .default Catalog.builtin
  additional := [.semantic Catalog.builtin]
  catalog := Catalog.builtin
  registry := .standard

theorem elevenAlike_reported :
    ((vulnerabilitiesOf Catalog.builtin "f" elevenAlike).map describe).Nodup ∧
      ∃ result, (builtinWithSemantic.analyze elevenRequest).value = .ok result ∧
        (∃ gap ∈ result.gaps, gap.actualImplementation =
            "XSS vulnerability f#11 with CRITICAL severity detected from f to f" ∧
          Risk.critical.rank ≤ gap.risk.rank) ∧
        11 ≤ result.gaps.length := by
  obtain ⟨_, hnodup, result, hresult, hreported, hlength⟩ := every_violation_reported
    Catalog.builtin.categories Catalog.builtin Catalog.build_builtin "f" elevenAlike _ elevenRequest
    rfl builtinWithSemantic rfl
  have hlast : (scriptViolation, Vulnerability.ofViolation Catalog.builtin "f" 11 scriptViolation) ∈
      elevenAlike.zip (vulnerabilitiesOf Catalog.builtin "f" elevenAlike) :=
    List.mem_of_getElem? (i := 10) rfl
  have htext : describe (.ofViolation Catalog.builtin "f" 11 scriptViolation) =
      "XSS vulnerability f#11 with CRITICAL severity detected from f to f" := by decide +kernel
  obtain ⟨gap, hgap, hactual, hrank⟩ := hreported _ _ hlast
  exact ⟨hnodup, result, hresult, ⟨gap, hgap, hactual.trans htext, hrank⟩, hlength⟩

end Shortfall.Gap

import Shortfall.Proofs.Gap.Deduplication
import Shortfall.Proofs.Gap.Merge

/-!
# What the strategies of the library contribute

The strategies that come with the library accept every complete request, never fail on one and mark
what they find with their own name, so what they contribute is exactly the list of gaps that their
analysis gives. A detector with the default strategy as its primary one therefore succeeds on every
complete request, with the gaps of that strategy first (`value_analyze_of_default`).

Which gaps an analysis gives is said once, by membership, with one lemma for each analysis.
-/

namespace Shortfall.Gap

namespace Finder

variable {finder : Finder} {input : Input} {gap : SecurityGap}

/-! ## The gaps of each analysis -/

theorem mem_mappingGaps :
    gap ∈ finder.mappingGaps input ↔
      ∃ intent ∈ input.intents, ∃ v ∈ input.vulnerabilities,
        finder.related intent v = true ∧ finder.mappingGap intent v = gap := by
  simp only [mappingGaps, relatedTo, List.mem_flatMap, List.mem_map, List.mem_filter, and_assoc]

theorem mem_coverageGaps :
    gap ∈ finder.coverageGaps input ↔
      ∃ intent ∈ input.intents,
        intent.securityRequirements = [] ∧ finder.coverageGap intent = gap := by
  simp only [coverageGaps, List.mem_map, List.mem_filter, List.isEmpty_iff, and_assoc]

theorem mem_mismatchGaps :
    gap ∈ finder.mismatchGaps input ↔
      ∃ intent ∈ input.intents, ∃ v ∈ input.vulnerabilities,
        finder.related intent v = true ∧ isUnderestimated intent v = true ∧
          finder.mismatchGap intent v = gap := by
  simp only [mismatchGaps, relatedTo, List.mem_flatMap, List.mem_map, List.mem_filter, and_assoc]

theorem mem_orphanGaps :
    gap ∈ finder.orphanGaps input ↔
      ∃ v ∈ input.vulnerabilities,
        finder.isCovered input.intents v = false ∧ finder.orphanGap v = gap := by
  simp only [orphanGaps, List.mem_map, List.mem_filter, Bool.not_eq_true', and_assoc]

theorem mem_semanticGaps :
    gap ∈ finder.semanticGaps input ↔
      ∃ intent ∈ input.intents, ∃ v ∈ input.vulnerabilities,
        finder.semanticGap? intent v = some gap := by
  simp only [semanticGaps, List.mem_flatMap, List.mem_filterMap]

theorem mem_defaultGaps :
    gap ∈ finder.defaultGaps input ↔
      gap ∈ finder.mappingGaps input ∨ gap ∈ finder.coverageGaps input ∨
        gap ∈ finder.mismatchGaps input ∨ gap ∈ finder.orphanGaps input := by
  simp only [defaultGaps, List.mem_append, or_assoc]

/-- A test that is related to a vulnerability has a security requirement. -/
theorem securityRequirements_ne_nil {intent : TestIntent} {v : Vulnerability}
    (h : finder.related intent v = true) : intent.securityRequirements ≠ [] := by
  intro hnil
  rw [related, Catalog.relatesAny, hnil] at h
  exact Bool.false_ne_true h

theorem isCovered_eq_false_iff {intents : List TestIntent} {v : Vulnerability} :
    finder.isCovered intents v = false ↔ ∀ intent ∈ intents, finder.related intent v = false := by
  simp only [isCovered, List.any_eq_false, Bool.not_eq_true]

/-- **No finding is lost**: each has a gap that says what was found. -/
theorem exists_gap_of_finding (finder : Finder) {v : Vulnerability}
    (hv : v ∈ input.vulnerabilities) :
    ∃ gap ∈ finder.defaultGaps input, gap.actualImplementation = describe v := by
  cases hcovered : finder.isCovered input.intents v with
  | true =>
      obtain ⟨intent, hintent, hrelated⟩ := List.any_eq_true.mp hcovered
      have hgap := mem_mappingGaps.mpr ⟨intent, hintent, v, hv, hrelated, rfl⟩
      exact ⟨_, mem_defaultGaps.mpr (.inl hgap), rfl⟩
  | false =>
      have hgap := mem_orphanGaps.mpr ⟨v, hv, hcovered, rfl⟩
      exact ⟨_, mem_defaultGaps.mpr (.inr (.inr (.inr hgap))), rfl⟩

/-! ## Marks -/

private theorem detectedBy_of_mem_mismatchGaps (h : gap ∈ finder.mismatchGaps input) :
    gap.detectedBy = finder.name := by
  obtain ⟨_, _, _, _, _, _, rfl⟩ := mem_mismatchGaps.mp h
  rfl

private theorem detectedBy_of_mem_orphanGaps (h : gap ∈ finder.orphanGaps input) :
    gap.detectedBy = finder.name := by
  obtain ⟨_, _, _, rfl⟩ := mem_orphanGaps.mp h
  rfl

private theorem detectedBy_of_mem_semanticGaps (h : gap ∈ finder.semanticGaps input) :
    gap.detectedBy = finder.name := by
  obtain ⟨intent, _, v, _, hgap⟩ := mem_semanticGaps.mp h
  rw [semanticGap?] at hgap
  split at hgap
  · cases hgap
    rfl
  · split at hgap
    · cases hgap
      rfl
    · cases hgap

private theorem detectedBy_of_mem_defaultGaps (h : gap ∈ finder.defaultGaps input) :
    gap.detectedBy = finder.name := by
  rcases mem_defaultGaps.mp h with hmapping | hcoverage | hmismatch | horphan
  · obtain ⟨_, _, _, _, _, rfl⟩ := mem_mappingGaps.mp hmapping
    rfl
  · obtain ⟨_, _, _, rfl⟩ := mem_coverageGaps.mp hcoverage
    rfl
  · exact detectedBy_of_mem_mismatchGaps hmismatch
  · exact detectedBy_of_mem_orphanGaps horphan

end Finder

/-! ## Contributions -/

/-- The gaps that the default strategy finds with a catalog. -/
def gapsOfDefault (catalog : Catalog) (input : Input) : List SecurityGap :=
  Finder.defaultGaps { catalog, name := Strategy.defaultKey } input

namespace Strategy

variable {request : Request} {input : Input} {name : Text} {catalog : Catalog}
  {gaps : Finder → Input → List SecurityGap}

theorem analyze_ofFinder (hinput : request.input = .ok input) :
    (ofFinder name catalog gaps).analyze request =
      .found (.ofGaps (gaps { catalog, name } input)) := by
  simp only [ofFinder, hinput]

private theorem not_fails_ofFinder (hinput : request.input = .ok input) :
    ¬(ofFinder name catalog gaps).Fails request := by
  rintro (hrejects | ⟨failure, hfailed⟩)
  · have haccepts : (ofFinder name catalog gaps).accepts request = true := by
      simp only [ofFinder, Request.isComplete, hinput]
    rw [haccepts] at hrejects
    cases hrejects
  · rw [analyze_ofFinder hinput] at hfailed
    cases hfailed

/-- A strategy that marks all that it finds contributes just that. -/
theorem contribution_ofFinder (hinput : request.input = .ok input) (hname : name ≠ [])
    (hmarked : ∀ gap ∈ gaps { catalog, name } input, gap.detectedBy = name) :
    (ofFinder name catalog gaps).contribution request = gaps { catalog, name } input := by
  have haccepts : (ofFinder name catalog gaps).accepts request = true := by
    simp only [ofFinder, Request.isComplete, hinput]
  rw [contribution, if_pos haccepts, analyze_ofFinder hinput]
  apply List.map_congr_left (g := id) ?_ |>.trans (List.map_id _)
  intro gap hgap
  have hmark : gap.detectedBy ≠ [] := hmarked gap hgap ▸ hname
  exact if_neg hmark

theorem contribution_default (hinput : request.input = .ok input) :
    (Strategy.default catalog).contribution request = gapsOfDefault catalog input :=
  contribution_ofFinder hinput (by decide) fun _ => Finder.detectedBy_of_mem_defaultGaps

theorem contribution_riskBased (hinput : request.input = .ok input) :
    (Strategy.riskBased catalog).contribution request =
      Finder.mismatchGaps { catalog, name := riskBasedKey } input :=
  contribution_ofFinder hinput (by decide) fun _ => Finder.detectedBy_of_mem_mismatchGaps

theorem contribution_coverageBased (hinput : request.input = .ok input) :
    (Strategy.coverageBased catalog).contribution request =
      Finder.orphanGaps { catalog, name := coverageBasedKey } input :=
  contribution_ofFinder hinput (by decide) fun _ => Finder.detectedBy_of_mem_orphanGaps

theorem contribution_semantic (hinput : request.input = .ok input) :
    (Strategy.semantic catalog).contribution request =
      Finder.semanticGaps { catalog, name := semanticKey } input :=
  contribution_ofFinder hinput (by decide) fun _ => Finder.detectedBy_of_mem_semanticGaps

end Strategy

namespace Detector

/-- With the default strategy as the primary one, an analysis of a complete request succeeds. Its
gaps are those of the default strategy and behind them what the additional strategies contribute. -/
theorem value_analyze_of_default {detector : Detector} {request : Request} {input : Input}
    {catalog : Catalog} (hinput : request.input = .ok input)
    (hprimary : detector.primary = Strategy.default catalog) :
    (detector.analyze request).value =
      .ok (.ofGaps (deduplicate (gapsOfDefault catalog input
        ++ detector.additional.flatMap (·.contribution request)))) := by
  have hsucceeds : ¬detector.Fails request := by
    rintro (hincomplete | hfails)
    · simp only [Request.isComplete, hinput] at hincomplete
      cases hincomplete
    · rw [hprimary] at hfails
      exact Strategy.not_fails_ofFinder hinput hfails
  rw [value_analyze_of_succeeds hsucceeds, merged, hprimary, Strategy.contribution_default hinput]

theorem value_analyze_of_default_alone {detector : Detector} {request : Request} {input : Input}
    {catalog : Catalog} (hinput : request.input = .ok input)
    (hprimary : detector.primary = Strategy.default catalog) (halone : detector.additional = []) :
    (detector.analyze request).value =
      .ok (.ofGaps (deduplicate (gapsOfDefault catalog input))) := by
  rw [value_analyze_of_default hinput hprimary, halone, List.flatMap_nil, List.append_nil]

end Detector

/-! ## A small catalog with two findings -/

def twoCategories : Catalog where
  categories := [
    { id := "SQL_INJECTION", triggers := ["sql"] },
    { id := "XSS", triggers := ["script"] }]

/-- A detector with the given strategies behind the default one. -/
def defaultWith (additional : List Strategy) : Detector where
  config := {}
  primary := .default twoCategories
  additional := additional
  catalog := twoCategories
  registry := .standard

def queryFinding : Vulnerability where
  id := "v1"
  type := "SQL_INJECTION"
  severity := "HIGH"

def scriptFinding : Vulnerability where
  id := "v2"
  type := "XSS"
  severity := "LOW"

end Shortfall.Gap

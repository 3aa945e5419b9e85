import Shortfall.Proofs.Catalog.Tags
import Shortfall.Proofs.Gap.HiddenRisk

/-!
# Escalation behind a test of authentication

An SQL injection behind a test of authentication is critical, whatever severity it was found with.
The gap that says so may give way to an earlier one with the same key: that of another test with the
same name and the same intention, and of another vulnerability with the same description. It has to
be seen that the earlier one is critical too.

Of two categories behind one description either both are the same or one goes on behind the other,
with the word "vulnerability" (`type_eq_or_continues`). No tag of the catalog that comes with the
library contains this word, so a category that goes on in this way is unknown to the catalog, and no
test is related to it. It does not matter here whether the vulnerabilities are legible.

## Main results

* `isAuthTest_iff`: which tests are tests of authentication.
* `isSqlInjection_of_describe_eq`: a related vulnerability with the description of an SQL injection
  is one.
* `escalation_survives_merging`
-/

namespace Shortfall.Gap

/-- A test of authentication has one of the terms in its name, in any case. -/
theorem isAuthTest_iff {name : Text} :
    isAuthTest name = true ↔ ∃ term ∈ authTerms, name.ContainsAnyCase term := by
  have hterms : ∀ term ∈ authTerms, term = Text.ofChars term.shown ∧
      Text.replacement ∉ term.shown := by decide
  simp only [isAuthTest, List.any_eq_true, Text.occursIn_iff]
  refine exists_congr fun term => and_congr_right fun hterm => ?_
  obtain ⟨hchars, hreplacement⟩ := hterms term hterm
  rw [hchars]
  exact (Text.containsAnyCase_iff hreplacement).symm

/-! ## The word behind a category -/

/-- The word behind the category of a description, as it would be seen in a tag. -/
def categoryTag : Text := "VULNERABILITY"

/-- A category that goes on with the words behind one has them in its tag. -/
theorem categoryTag_infix_normalizeId {id : Text} (h : categoryWords <:+: id) :
    categoryTag <:+: Catalog.normalizeId id := by
  let word : List Char := "vulnerability".toList
  have hword : Text.ofChars word <:+: categoryWords := by
    rw [← Text.occursIn_iff]
    decide
  have hblank : word.any Text.isBlank = false := by decide
  have htag : Text.ofChars (word.map fun c => Catalog.joinWords (Text.upperChar c)) =
      categoryTag := by decide
  rw [← htag]
  exact Catalog.ofChars_infix_normalizeId (hword.trans h) hblank

/-- Whether no tag of the catalog contains the word. -/
def hasPlainTags (catalog : Catalog) : Bool :=
  catalog.categories.all fun category => !categoryTag.occursIn category.id

private theorem hasPlainTags_builtin : hasPlainTags Catalog.builtin = true := by decide

section Catalog

variable {catalog : Catalog} (hplain : hasPlainTags catalog = true)

include hplain

/-- What a test is related to has a tag of the catalog. -/
theorem not_categoryTag_infix_of_relatesAny {phrases : List Text} {id : Text}
    (h : catalog.relatesAny phrases id = true) :
    ¬categoryTag <:+: Catalog.normalizeId id := by
  obtain ⟨phrase, _, hrelates⟩ := List.any_eq_true.mp h
  unfold Catalog.relates at hrelates
  split at hrelates
  · cases hrelates
  · next category hfound =>
      have hid : category.id = Catalog.normalizeId id := by simpa using List.find?_some hfound
      have htag := List.all_eq_true.mp hplain category (List.mem_of_find?_eq_some hfound)
      rw [Bool.not_eq_true', hid] at htag
      rw [← Text.occursIn_iff, htag]
      exact Bool.false_ne_true

/-- **A related vulnerability with the description of an SQL injection is one.** -/
theorem isSqlInjection_of_describe_eq {v w : Vulnerability} {phrases : List Text}
    (hv : v.isSqlInjection = true) (hw : catalog.relatesAny phrases w.type = true)
    (h : describe w = describe v) : w.isSqlInjection = true := by
  rcases type_eq_or_continues (congrArg (· ++ []) h) with htype | hlonger | hlonger
  · rw [Vulnerability.isSqlInjection, htype]
    exact hv
  · -- The longer category would be that of an SQL injection.
    have hwords := (List.suffix_append w.type categoryWords).isInfix.trans hlonger.isInfix
    have htag := categoryTag_infix_normalizeId hwords
    rw [of_decide_eq_true hv, ← Text.occursIn_iff] at htag
    exact absurd htag (by decide)
  · -- The longer category would be that of the other vulnerability, which is in the catalog.
    have hwords := (List.suffix_append v.type categoryWords).isInfix.trans hlonger.isInfix
    exact absurd (categoryTag_infix_normalizeId hwords)
      (not_categoryTag_infix_of_relatesAny hplain hw)

/-- A gap with the key of an escalated one is critical. -/
theorem risk_eq_critical_of_key_eq {finder : Finder} (hcatalog : finder.catalog = catalog)
    {input : Input} {intent : TestIntent} {v : Vulnerability} {gap : SecurityGap}
    (hauth : isAuthTest intent.testName = true) (hv : v.isSqlInjection = true)
    (hgap : gap ∈ finder.mappingGaps input) (hkey : gap.key = (finder.mappingGap intent v).key) :
    gap.risk = .critical := by
  obtain ⟨other, _, w, _, hrelated, rfl⟩ := Finder.mem_mappingGaps.mp hgap
  have hname : other.testName = intent.testName := congrArg (·.1) hkey
  have hdescribe : describe w = describe v := congrArg (·.2.2) hkey
  have hw : w.isSqlInjection = true := by
    rw [Finder.related, hcatalog] at hrelated
    exact isSqlInjection_of_describe_eq hplain hv hrelated hdescribe
  have hrisk : (finder.mappingGap other w).risk = mappedRisk other w := by rw [Finder.mappingGap]
  rw [hrisk, mappedRisk_eq, hname, hauth, hw, Bool.and_self, if_pos rfl]

/-- Whatever is merged behind the mapping gaps, an escalated one stays, or one that says the
same. -/
theorem exists_escalated_gap {finder : Finder} (hcatalog : finder.catalog = catalog)
    {input : Input} {intent : TestIntent} {v : Vulnerability} (hintent : intent ∈ input.intents)
    (hvulnerability : v ∈ input.vulnerabilities) (hauth : isAuthTest intent.testName = true)
    (hv : v.isSqlInjection = true) (hrelated : finder.related intent v = true)
    (back : List SecurityGap) :
    ∃ gap ∈ deduplicate (finder.mappingGaps input ++ back),
      gap.key = (finder.mappingGap intent v).key ∧ gap.risk = .critical := by
  have hgap : finder.mappingGap intent v ∈ finder.mappingGaps input :=
    Finder.mem_mappingGaps.mpr ⟨intent, hintent, v, hvulnerability, hrelated, rfl⟩
  obtain ⟨kept, hkept, hfront, hkey⟩ := exists_mem_deduplicate_append hgap back
  exact ⟨kept, hkept, hkey, risk_eq_critical_of_key_eq hplain hcatalog hauth hv hfront hkey⟩

end Catalog

/-- **The escalation survives merging.** With the default strategy for the catalog that comes with
the library as the primary one, and any strategies besides, the analysis of a complete request
succeeds. For every test with a term of authentication in its name, and every vulnerability that is
tagged as an SQL injection and relates to a requirement of the test, the result has a critical gap
with the name of the test, its intention, and the description of the vulnerability. -/
theorem escalation_survives_merging {detector : Detector} {request : Request} {input : Input}
    (hinput : request.input = .ok input) (hprimary : detector.primary = .default Catalog.builtin) :
    ∃ result, (detector.analyze request).value = .ok result ∧
      ∀ intent ∈ input.intents, (∃ term ∈ authTerms, intent.testName.ContainsAnyCase term) →
      ∀ v ∈ input.vulnerabilities, Catalog.normalizeId v.type = "SQL_INJECTION" →
        (∃ requirement ∈ intent.securityRequirements,
          Catalog.builtin.relates requirement v.type = true) →
        ∃ gap ∈ result.gaps, gap.testName = intent.testName ∧
          gap.intention = intentionText intent ∧ gap.actualImplementation = describe v ∧
          gap.risk = .critical := by
  refine ⟨_, Detector.value_analyze_of_default hinput hprimary, ?_⟩
  intro intent hintent hauth v hv htag hrequirement
  let finder : Finder := { catalog := Catalog.builtin, name := Strategy.defaultKey }
  have hrelated : finder.related intent v = true := List.any_eq_true.mpr hrequirement
  obtain ⟨gap, hgap, hkey, hrisk⟩ := exists_escalated_gap hasPlainTags_builtin rfl hintent hv
    (isAuthTest_iff.mpr hauth) (decide_eq_true htag) hrelated
    (finder.coverageGaps input ++ (finder.mismatchGaps input ++ (finder.orphanGaps input
      ++ detector.additional.flatMap (·.contribution request))))
  refine ⟨gap, ?_, congrArg (·.1) hkey, congrArg (·.2.1) hkey, congrArg (·.2.2) hkey, hrisk⟩
  simpa only [Result.ofGaps, gapsOfDefault, Finder.defaultGaps, List.append_assoc] using hgap

def harmlessOneFile : Vulnerability := { oneFile with severity := "LOW" }

def harmlessTwoFiles : Vulnerability := { twoFiles with severity := "LOW" }

def secondLogOnTest : TestIntent := { loginTest with testName := "LogOn 2" }

/-- Two findings of low severity with one description, behind a test of authentication. -/
def harmlessAlike : Input where
  intents := [secondLogOnTest]
  vulnerabilities := [harmlessOneFile, harmlessTwoFiles]

/-- The default strategy for the catalog of the library, with an additional strategy. -/
def builtinWithRisks : Detector :=
  { defaultWith [.riskBased Catalog.builtin] with primary := .default Catalog.builtin }

theorem harmlessAlike_escalation :
    harmlessAlike.request.input = .ok harmlessAlike ∧
      describe harmlessOneFile = describe harmlessTwoFiles ∧
      secondLogOnTest.testName.ContainsAnyCase "logon" ∧
      Catalog.normalizeId harmlessTwoFiles.type = "SQL_INJECTION" ∧
      Catalog.builtin.relates "sql" harmlessTwoFiles.type = true ∧
      ∃ result, (builtinWithRisks.analyze harmlessAlike.request).value = .ok result ∧
        ∃ gap ∈ result.gaps, gap.testName = "LogOn 2" ∧
          gap.actualImplementation = describe harmlessTwoFiles ∧ gap.risk = .critical := by
  have hauth : secondLogOnTest.testName.ContainsAnyCase "logon" :=
    ⟨[], "LogOn", " 2", rfl, by decide⟩
  have htag : Catalog.normalizeId harmlessTwoFiles.type = "SQL_INJECTION" := by decide
  have hrelates : Catalog.builtin.relates "sql" harmlessTwoFiles.type = true := by decide
  have hinput : harmlessAlike.request.input = .ok harmlessAlike := rfl
  have hprimary : builtinWithRisks.primary = .default Catalog.builtin := rfl
  obtain ⟨result, hresult, hgaps⟩ := escalation_survives_merging hinput hprimary
  obtain ⟨gap, hgap, hname, _, hactual, hrisk⟩ := hgaps secondLogOnTest List.mem_cons_self
    ⟨"logon", by decide, hauth⟩ harmlessTwoFiles (List.mem_cons_of_mem _ List.mem_cons_self) htag
    ⟨"sql", List.mem_cons_self, hrelates⟩
  exact ⟨hinput, by decide, hauth, htag, hrelates, result, hresult, gap, hgap, hname,
    hactual, hrisk⟩

end Shortfall.Gap

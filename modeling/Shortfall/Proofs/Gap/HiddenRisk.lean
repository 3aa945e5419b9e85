import Shortfall.Command.Analyze
import Shortfall.Proofs.Gap.Description
import Shortfall.Proofs.Gap.Strategies
import Shortfall.Proofs.Text.LetterCase

/-!
# When deduplication can hide a risk

Of the gaps with one key only the first is kept, and the risk is no part of the key. So a grave gap
can disappear behind a harmless one, if both say the same of the same test. This module finds out
when they do.

The risk of a gap of the default strategy is that of the vulnerability it tells of, except that an
SQL injection behind a test of authentication is critical. Which test it is can be seen from the
key, and the risk of the vulnerability from its description, unless it is confused with another one:
the category or the id of one of the two contains the words that tell the risk of the other, or the
category of one goes on behind that of the other with the word that a description puts there, and
just one of them is an SQL injection. Where no two vulnerabilities are confused the key determines
the risk, and then neither the highest risk nor the exit status of a run depends on deduplication.
Without that, it does.

## Main result

* `deduplication_keeps_risk`
-/

namespace Shortfall.Gap

/-! ## The risk of a related pair -/

/-- A severity that matches the highest one in any case is read as the highest one. -/
theorem Severity.risk_of_isCritical {severity : Severity} (h : isCritical severity = true) :
    risk severity = .critical := by
  have hletters : critical.shown.all Text.isPlainCapital = true := by decide
  have hmend : critical.mend = critical := by decide
  have hupper : (Text.trim severity).upper = critical :=
    (Text.upper_eq_of_equalFold hletters h).trans hmend
  simp only [risk]
  rw [if_pos hupper]

def Vulnerability.isSqlInjection (v : Vulnerability) : Bool :=
  Catalog.normalizeId v.type = "SQL_INJECTION"

/-- The risk of a vulnerability is raised by tests of authentication only. -/
theorem mappedRisk_eq (intent : TestIntent) (v : Vulnerability) :
    mappedRisk intent v =
      if isAuthTest intent.testName && v.isSqlInjection then .critical
      else Severity.risk v.severity := by
  unfold mappedRisk Vulnerability.isSqlInjection
  cases hcritical : Severity.isCritical v.severity with
  | true =>
      rw [Severity.risk_of_isCritical hcritical]
      split_ifs <;> rfl
  | false => rw [Bool.false_or, Bool.and_comm]

/-! ## What the gaps of the default strategy tell -/

/-- Whether the key of a gap tells of a test of authentication with security requirements. -/
def SecurityGap.isOfAuthTest (gap : SecurityGap) : Bool :=
  gap.intention.getLast? = some 0x29 && isAuthTest gap.testName

/-- A gap that tells of a vulnerability, and takes its risk from it. -/
structure SecurityGap.TellsOf (gap : SecurityGap) (v : Vulnerability) : Prop where
  text : ∃ lead rest : Text, (0x77 : UInt8) ∉ lead ∧
    gap.actualImplementation = lead ++ (describe v ++ rest)
  whole : gap.isOfAuthTest = true → gap.actualImplementation = describe v
  risk : gap.risk =
    if gap.isOfAuthTest && v.isSqlInjection then .critical else Severity.risk v.severity

theorem SecurityGap.TellsOf.describe_infix {gap : SecurityGap} {v : Vulnerability}
    (h : gap.TellsOf v) : describe v <:+: gap.actualImplementation := by
  obtain ⟨lead, rest, _, htext⟩ := h.text
  exact ⟨lead, rest, by rw [htext, List.append_assoc]⟩

private theorem SecurityGap.TellsOf.ne_noRequirements {gap : SecurityGap} {v : Vulnerability}
    (h : gap.TellsOf v) : gap.actualImplementation ≠ noRequirements := by
  intro hbare
  have hwords := (categoryWords_infix_describe v).trans h.describe_infix
  rw [hbare] at hwords
  exact not_categoryWords_infix_noRequirements hwords

private theorem getLast?_intentionText {intent : TestIntent}
    (h : intent.securityRequirements ≠ []) : (intentionText intent).getLast? = some 0x29 := by
  have hparen : (")" : Text) = [0x29] := rfl
  simp only [intentionText, List.isEmpty_iff, h, if_false, hparen]
  rw [List.getLast?_concat]

namespace Finder

variable {finder : Finder} {intent : TestIntent} {v : Vulnerability}

private theorem tellsOf_mappingGap (hrelated : finder.related intent v = true) :
    (finder.mappingGap intent v).TellsOf v where
  text := ⟨[], [], List.not_mem_nil, (List.append_nil _).symm⟩
  whole := fun _ => rfl
  risk := by
    have hlast := getLast?_intentionText (securityRequirements_ne_nil hrelated)
    have hauth : (finder.mappingGap intent v).isOfAuthTest = isAuthTest intent.testName := by
      simp only [SecurityGap.isOfAuthTest, mappingGap, hlast, decide_true, Bool.true_and]
    rw [hauth, ← mappedRisk_eq, mappingGap]

private theorem tellsOf_mismatchGap : (finder.mismatchGap intent v).TellsOf v := by
  have hauth : (finder.mismatchGap intent v).isOfAuthTest = false := by
    have hlast : (finder.mismatchGap intent v).intention.getLast? = some 0x6B := by
      rw [mismatchGap, show (" risk" : Text) = (" ris" : Text) ++ [0x6B] from rfl,
        ← List.append_assoc, List.getLast?_concat]
    have hother : decide (some (0x6B : UInt8) = some 0x29) = false := by decide
    rw [SecurityGap.isOfAuthTest, hlast, hother, Bool.false_and]
  refine ⟨⟨"Risk under-estimated: ", ", above the declared " ++ intent.risk.name, by decide, ?_⟩,
    ?_, ?_⟩
  · simp only [mismatchGap, List.append_assoc]
  · intro h
    rw [hauth] at h
    cases h
  · rw [hauth, Bool.false_and, if_neg Bool.false_ne_true, mismatchGap]

private theorem tellsOf_orphanGap : (finder.orphanGap v).TellsOf v := by
  have hauth : (finder.orphanGap v).isOfAuthTest = false := by
    have hunknown : isAuthTest unknownTest = false := by decide
    rw [SecurityGap.isOfAuthTest, orphanGap, hunknown, Bool.and_false]
  refine ⟨⟨[], [], List.not_mem_nil, (List.append_nil _).symm⟩, fun _ => rfl, ?_⟩
  rw [hauth, Bool.false_and, if_neg Bool.false_ne_true, orphanGap]

/-- A gap of the default strategy tells of a vulnerability or of missing requirements. -/
theorem tellsOf_or_bare {input : Input} {gap : SecurityGap} (h : gap ∈ finder.defaultGaps input) :
    (∃ v ∈ input.vulnerabilities, gap.TellsOf v) ∨
      gap.actualImplementation = noRequirements ∧ gap.risk = .medium := by
  rcases mem_defaultGaps.mp h with hmapping | hcoverage | hmismatch | horphan
  · obtain ⟨intent, _, v, hv, hrelated, rfl⟩ := mem_mappingGaps.mp hmapping
    exact .inl ⟨v, hv, tellsOf_mappingGap hrelated⟩
  · obtain ⟨intent, _, _, rfl⟩ := mem_coverageGaps.mp hcoverage
    exact .inr ⟨rfl, rfl⟩
  · obtain ⟨intent, _, v, hv, _, _, rfl⟩ := mem_mismatchGaps.mp hmismatch
    exact .inl ⟨v, hv, tellsOf_mismatchGap⟩
  · obtain ⟨v, hv, _, rfl⟩ := mem_orphanGaps.mp horphan
    exact .inl ⟨v, hv, tellsOf_orphanGap⟩

end Finder

/-! ## Confused vulnerabilities -/

namespace Vulnerability

/-- Whether the category of `w` goes on behind that of `v` with the word that a description puts
there, and just one of them is an SQL injection. -/
def isObscuredBy (v w : Vulnerability) : Bool :=
  (v.type ++ categoryWords).isPrefixOf w.type && v.isSqlInjection != w.isSqlInjection

/-- Whether two vulnerabilities can be taken for each other where that changes the risk of a gap:
different risks, one of which is told by the other vulnerability as well, or a risk that is raised
for one of the two only. -/
def isConfusedWith (v w : Vulnerability) : Bool :=
  if Severity.risk v.severity = Severity.risk w.severity then
    Severity.risk v.severity ≠ .critical && (v.isObscuredBy w || w.isObscuredBy v)
  else v.tellsRiskOf w || w.tellsRiskOf v

private theorem ne_of_isConfusedWith {v w : Vulnerability} (h : v.isConfusedWith w = true) :
    v ≠ w := by
  rintro rfl
  have hself : v.isObscuredBy v = false := by rw [isObscuredBy, bne_self_eq_false, Bool.and_false]
  rw [isConfusedWith, if_pos rfl, hself, Bool.or_self, Bool.and_false] at h
  cases h

private theorem isSqlInjection_eq_of_continues {v w : Vulnerability}
    (hclear : v.isObscuredBy w = false) (hlonger : v.type ++ categoryWords <+: w.type) :
    v.isSqlInjection = w.isSqlInjection := by
  rw [isObscuredBy, List.isPrefixOf_iff_prefix.mpr hlonger, Bool.true_and] at hclear
  exact bne_eq_false_iff_eq.mp hclear

private theorem isSqlInjection_eq {v w : Vulnerability} (hv : v.isObscuredBy w = false)
    (hw : w.isObscuredBy v = false) (h : describe v = describe w) :
    v.isSqlInjection = w.isSqlInjection := by
  rcases type_eq_or_continues (congrArg (· ++ []) h) with htype | hlonger | hlonger
  · rw [isSqlInjection, isSqlInjection, htype]
  · exact isSqlInjection_eq_of_continues hv hlonger
  · exact (isSqlInjection_eq_of_continues hw hlonger).symm

end Vulnerability

/-- Whether no two vulnerabilities are confused. -/
def Input.isLegible (input : Input) : Bool :=
  input.vulnerabilities.all fun v => input.vulnerabilities.all fun w => !v.isConfusedWith w

private theorem Input.not_isConfusedWith {input : Input} (h : input.isLegible = true)
    {v w : Vulnerability} (hv : v ∈ input.vulnerabilities) (hw : w ∈ input.vulnerabilities) :
    v.isConfusedWith w = false := by
  have hpair := List.all_eq_true.mp (List.all_eq_true.mp h v hv) w hw
  rwa [Bool.not_eq_true'] at hpair

/-- Gaps with one key that tell of vulnerabilities that are not confused have one risk. -/
theorem SecurityGap.TellsOf.risk_eq {gap other : SecurityGap} {v w : Vulnerability}
    (hgap : gap.TellsOf v) (hother : other.TellsOf w) (hkey : gap.key = other.key)
    (hclear : v.isConfusedWith w = false) : gap.risk = other.risk := by
  have hactual : gap.actualImplementation = other.actualImplementation := congrArg (·.2.2) hkey
  have hauth : gap.isOfAuthTest = other.isOfAuthTest := by
    have hname : gap.testName = other.testName := congrArg (·.1) hkey
    have hintention : gap.intention = other.intention := congrArg (·.2.1) hkey
    rw [isOfAuthTest, isOfAuthTest, hname, hintention]
  have hseverity : Severity.risk v.severity = Severity.risk w.severity := by
    by_contra hdiffer
    rw [Vulnerability.isConfusedWith, if_neg hdiffer, Bool.or_eq_false_iff] at hclear
    obtain ⟨lead, rest, hlead, htext⟩ := hgap.text
    obtain ⟨start, behind, hstart, hothertext⟩ := hother.text
    exact hdiffer (risk_eq_of_describe_append hclear.1 hclear.2 hlead hstart
      (htext.symm.trans (hactual.trans hothertext)))
  rw [hgap.risk, hother.risk, ← hauth, ← hseverity]
  -- The risks are one, so only a test of authentication can still tell the vulnerabilities apart.
  cases htest : gap.isOfAuthTest with
  | false => rw [Bool.false_and, Bool.false_and]
  | true =>
      by_cases hcritical : Severity.risk v.severity = .critical
      · rw [hcritical, ite_self, ite_self]
      · rw [Vulnerability.isConfusedWith, if_pos hseverity, decide_eq_true hcritical,
          Bool.true_and, Bool.or_eq_false_iff] at hclear
        have hdescribe : describe v = describe w := by
          rw [← hgap.whole htest, hactual, hother.whole (hauth ▸ htest)]
        rw [Vulnerability.isSqlInjection_eq hclear.1 hclear.2 hdescribe]

/-- **Two gaps with one key differ in risk only if the key tells of two vulnerabilities that are
confused.** -/
theorem risk_eq_or_confused {finder : Finder} {input : Input} {gap other : SecurityGap}
    (hgap : gap ∈ finder.defaultGaps input) (hother : other ∈ finder.defaultGaps input)
    (hkey : gap.key = other.key) :
    gap.risk = other.risk ∨ ∃ v ∈ input.vulnerabilities, ∃ w ∈ input.vulnerabilities,
      v ≠ w ∧ v.isConfusedWith w = true ∧ describe v <:+: gap.actualImplementation ∧
        describe w <:+: gap.actualImplementation := by
  have hactual : gap.actualImplementation = other.actualImplementation := congrArg (·.2.2) hkey
  rcases Finder.tellsOf_or_bare hgap with ⟨v, hv, hvgap⟩ | ⟨hbare, hmedium⟩
  · rcases Finder.tellsOf_or_bare hother with ⟨w, hw, hwgap⟩ | ⟨hbare, _⟩
    · cases hconfused : v.isConfusedWith w with
      | false => exact .inl (hvgap.risk_eq hwgap hkey hconfused)
      | true =>
          right
          exact ⟨v, hv, w, hw, Vulnerability.ne_of_isConfusedWith hconfused, hconfused,
            hvgap.describe_infix, hactual ▸ hwgap.describe_infix⟩
    · exact absurd (hactual.trans hbare) hvgap.ne_noRequirements
  · rcases Finder.tellsOf_or_bare hother with ⟨w, _, hwgap⟩ | ⟨_, hothermedium⟩
    · exact absurd (hactual.symm.trans hbare) hwgap.ne_noRequirements
    · exact .inl (hmedium.trans hothermedium.symm)

private theorem risk_eq_of_isLegible {finder : Finder} {input : Input}
    (hlegible : input.isLegible = true) {gap other : SecurityGap}
    (hgap : gap ∈ finder.defaultGaps input) (hother : other ∈ finder.defaultGaps input)
    (hkey : gap.key = other.key) :
    gap.risk = other.risk := by
  rcases risk_eq_or_confused hgap hother hkey with hsame | ⟨v, hv, w, hw, _, hconfused, _⟩
  · exact hsame
  · rw [Input.not_isConfusedWith hlegible hv hw] at hconfused
    cases hconfused

/-! ## Deduplication -/

/-- The highest rank of a gap. -/
def highestRank? (gaps : List SecurityGap) : Option Int := (gaps.map (·.risk.rank)).max?

theorem highestRank?_eq_of_mem_iff {gaps others : List SecurityGap}
    (h : ∀ rank, rank ∈ gaps.map (·.risk.rank) ↔ rank ∈ others.map (·.risk.rank)) :
    highestRank? gaps = highestRank? others := by
  cases hhighest : highestRank? others with
  | none =>
      have hnil : others.map (·.risk.rank) = [] := List.max?_eq_none_iff.mp hhighest
      rw [highestRank?, List.max?_eq_none_iff, List.eq_nil_iff_forall_not_mem]
      intro rank hrank
      have hmem := (h rank).mp hrank
      rw [hnil] at hmem
      cases hmem
  | some highest =>
      obtain ⟨hmem, hmax⟩ := List.max?_eq_some_iff.mp hhighest
      rw [highestRank?, List.max?_eq_some_iff]
      exact ⟨(h highest).mpr hmem, fun rank hrank => hmax rank ((h rank).mp hrank)⟩

section Kept

variable {gaps : List SecurityGap}
  (hsame : ∀ gap ∈ gaps, ∀ other ∈ gaps, gap.key = other.key → gap.risk = other.risk)

include hsame

/-- Where the key determines the risk, every gap has one of its risk among those that are kept. -/
theorem exists_kept_with_risk {gap : SecurityGap} (hgap : gap ∈ gaps) (others : List SecurityGap) :
    ∃ kept ∈ deduplicate (gaps ++ others), kept.key = gap.key ∧ kept.risk = gap.risk := by
  obtain ⟨kept, hkept, hfront, hkey⟩ := exists_mem_deduplicate_append hgap others
  exact ⟨kept, hkept, hkey, hsame kept hfront gap hgap hkey⟩

theorem mem_map_rank_deduplicate (rank : Int) :
    rank ∈ (deduplicate gaps).map (·.risk.rank) ↔ rank ∈ gaps.map (·.risk.rank) := by
  constructor
  · intro hrank
    obtain ⟨gap, hgap, rfl⟩ := List.mem_map.mp hrank
    exact List.mem_map.mpr ⟨gap, mem_of_mem_deduplicate hgap, rfl⟩
  · intro hrank
    obtain ⟨gap, hgap, rfl⟩ := List.mem_map.mp hrank
    obtain ⟨kept, hkept, _, hrisk⟩ := exists_kept_with_risk hsame hgap []
    rw [List.append_nil] at hkept
    exact List.mem_map.mpr ⟨kept, hkept, by rw [hrisk]⟩

end Kept

theorem thresholdError?_ofGaps (threshold : Risk) (gaps : List SecurityGap) :
    Command.thresholdError? (some threshold) (.ofGaps gaps) =
      if gaps.any fun gap => threshold.rank ≤ gap.risk.rank then some (.gapsFound threshold)
      else none := rfl

/-- More risks raise no fewer errors. -/
theorem thresholdError?_of_subset {threshold? : Option Risk} {gaps others : List SecurityGap}
    (h : ∀ rank ∈ gaps.map (·.risk.rank), rank ∈ others.map (·.risk.rank)) {error : Command.Error}
    (herror : Command.thresholdError? threshold? (.ofGaps gaps) = some error) :
    Command.thresholdError? threshold? (.ofGaps others) = some error := by
  cases threshold? with
  | none => cases herror
  | some threshold =>
      rw [thresholdError?_ofGaps] at herror ⊢
      split at herror
      case isTrue hany =>
        obtain ⟨gap, hgap, hreached⟩ := List.any_eq_true.mp hany
        obtain ⟨other, hother, hrank⟩ := List.mem_map.mp (h _ (List.mem_map_of_mem hgap))
        rw [if_pos, herror]
        exact List.any_eq_true.mpr ⟨other, hother, by rwa [hrank]⟩
      case isFalse => cases herror

theorem thresholdError?_eq_of_mem_iff (threshold? : Option Risk) {gaps others : List SecurityGap}
    (h : ∀ rank, rank ∈ gaps.map (·.risk.rank) ↔ rank ∈ others.map (·.risk.rank)) :
    Command.thresholdError? threshold? (.ofGaps gaps) =
      Command.thresholdError? threshold? (.ofGaps others) := by
  apply Option.ext
  intro error
  exact ⟨thresholdError?_of_subset fun rank => (h rank).mp,
    thresholdError?_of_subset fun rank => (h rank).mpr⟩

/-- **Deduplication keeps the risks of findings that are not confused.** Gaps of the default
strategy with one key have one risk, unless the key tells of two vulnerabilities that are confused.
Where no two are, the result of an analysis has every key with the risk that was found, no error for
the threshold of a run is lost, and without additional strategies the highest risk and that error
are those of the gaps before deduplication. -/
theorem deduplication_keeps_risk (catalog : Catalog) (input : Input) :
    (∀ gap ∈ gapsOfDefault catalog input, ∀ other ∈ gapsOfDefault catalog input,
      gap.key = other.key → gap.risk = other.risk ∨
        ∃ v ∈ input.vulnerabilities, ∃ w ∈ input.vulnerabilities,
          v ≠ w ∧ v.isConfusedWith w = true ∧
          describe v <:+: gap.actualImplementation ∧ describe w <:+: gap.actualImplementation) ∧
    (input.isLegible = true → ∀ (request : Request) (detector : Detector),
      request.input = .ok input → detector.primary = .default catalog →
      ∃ result, (detector.analyze request).value = .ok result ∧
        (∀ gap ∈ gapsOfDefault catalog input,
          ∃ kept ∈ result.gaps, kept.key = gap.key ∧ kept.risk = gap.risk) ∧
        (∀ threshold? error,
          Command.thresholdError? threshold? (.ofGaps (gapsOfDefault catalog input)) = some error →
          Command.thresholdError? threshold? result = some error) ∧
        (detector.additional = [] →
          highestRank? result.gaps = highestRank? (gapsOfDefault catalog input) ∧
          ∀ threshold?, Command.thresholdError? threshold? result =
            Command.thresholdError? threshold? (.ofGaps (gapsOfDefault catalog input)))) := by
  refine ⟨fun gap hgap other hother => risk_eq_or_confused hgap hother, ?_⟩
  intro hlegible request detector hinput hprimary
  have hsame : ∀ gap ∈ gapsOfDefault catalog input, ∀ other ∈ gapsOfDefault catalog input,
      gap.key = other.key → gap.risk = other.risk :=
    fun gap hgap other hother => risk_eq_of_isLegible hlegible hgap hother
  have hkept : ∀ gap ∈ gapsOfDefault catalog input,
      ∃ kept ∈ deduplicate (gapsOfDefault catalog input
          ++ detector.additional.flatMap (·.contribution request)),
        kept.key = gap.key ∧ kept.risk = gap.risk :=
    fun gap hgap => exists_kept_with_risk hsame hgap _
  refine ⟨_, Detector.value_analyze_of_default hinput hprimary, hkept, ?_, ?_⟩
  · intro threshold? error herror
    refine thresholdError?_of_subset ?_ herror
    intro rank hrank
    obtain ⟨gap, hgap, rfl⟩ := List.mem_map.mp hrank
    obtain ⟨kept, hmem, _, hrisk⟩ := hkept gap hgap
    exact List.mem_map.mpr ⟨kept, hmem, by rw [hrisk]⟩
  · intro halone
    have hranks := mem_map_rank_deduplicate hsame
    rw [halone, List.flatMap_nil, List.append_nil]
    exact ⟨highestRank?_eq_of_mem_iff hranks, fun threshold? =>
      thresholdError?_eq_of_mem_iff threshold? hranks⟩

/-- A request with the given tests and findings. -/
def Input.request (input : Input) : Request where
  intent? := some { testIntents? := some input.intents }
  taint? := some { vulnerabilities? := some input.vulnerabilities }

def loginTest : TestIntent where
  testName := "login"
  securityRequirements := ["sql"]

/-- Its id has the words of a risk that nothing else here tells. -/
def misleadingFinding : Vulnerability := { queryFinding with id := "with LOW severity detected" }

/-- A file with a name that reads like two. -/
def oneFile : Vulnerability := { misleadingFinding with source := { file := "a to b" } }

def twoFiles : Vulnerability :=
  { misleadingFinding with source := { file := "a" }, sink := { file := "b" } }

/-- Two findings with one description, behind a test of authentication. -/
def describedAlike : Input where
  intents := [loginTest]
  vulnerabilities := [oneFile, twoFiles]

theorem describedAlike_keeps_risk :
    describedAlike.isLegible = true ∧
      (∃ gap ∈ gapsOfDefault twoCategories describedAlike,
        ∃ other ∈ gapsOfDefault twoCategories describedAlike,
          gap.actualImplementation = describe oneFile ∧
          other.actualImplementation = describe twoFiles ∧
          gap.key = other.key ∧ gap.risk = other.risk) ∧
      ∃ result, ((defaultWith []).analyze describedAlike.request).value = .ok result ∧
        highestRank? result.gaps = some 3 := by
  have hlegible : describedAlike.isLegible = true := by decide
  obtain ⟨hpairs, hdetectors⟩ := deduplication_keeps_risk twoCategories describedAlike
  refine ⟨hlegible, ?_, ?_⟩
  · let finder : Finder := ⟨twoCategories, Strategy.defaultKey⟩
    have hrelated : finder.related loginTest misleadingFinding = true := by decide
    have hone : finder.mappingGap loginTest oneFile ∈ finder.defaultGaps describedAlike :=
      Finder.mem_defaultGaps.mpr (.inl (Finder.mem_mappingGaps.mpr
        ⟨loginTest, List.mem_cons_self, oneFile, List.mem_cons_self, hrelated, rfl⟩))
    have htwo : finder.mappingGap loginTest twoFiles ∈ finder.defaultGaps describedAlike :=
      Finder.mem_defaultGaps.mpr (.inl (Finder.mem_mappingGaps.mpr
        ⟨loginTest, List.mem_cons_self, twoFiles, List.mem_cons_of_mem _ List.mem_cons_self,
          hrelated, rfl⟩))
    have halike : describe oneFile = describe twoFiles := by decide
    have hkey : (finder.mappingGap loginTest oneFile).key =
        (finder.mappingGap loginTest twoFiles).key :=
      congrArg (fun text => (loginTest.testName, intentionText loginTest, text)) halike
    refine ⟨_, hone, _, htwo, rfl, rfl, hkey, ?_⟩
    rcases hpairs _ hone _ htwo hkey with hsame | ⟨v, hv, w, hw, _, hconfused, _⟩
    · exact hsame
    · rw [Input.not_isConfusedWith hlegible hv hw] at hconfused
      cases hconfused
  · obtain ⟨result, hresult, _, _, halone⟩ :=
      hdetectors hlegible describedAlike.request (defaultWith []) rfl rfl
    have hhighest : highestRank? (gapsOfDefault twoCategories describedAlike) = some 3 := by
      decide
    exact ⟨result, hresult, (halone rfl).1.trans hhighest⟩

/-! ## Findings that are not legible -/

def lowScript : Vulnerability where
  type := "XSS"
  severity := "LOW"
  source := { file := "a with HIGH severity detected" }

/-- Its id contains the words that tell the risk of `lowScript`. -/
def highScript : Vulnerability where
  id := "with LOW severity detected from a"
  type := "XSS"
  severity := "HIGH"

def namedVulnerability : Vulnerability where
  id := "vulnerability"
  type := "SQL_INJECTION"
  severity := "LOW"

/-- Its category goes on behind that of `namedVulnerability`. -/
def longerCategory : Vulnerability where
  type := "SQL_INJECTION vulnerability"
  severity := "LOW"

/-- A catalog that has both of these categories. -/
def twoQueryCategories : Catalog where
  categories := [
    { id := "SQL_INJECTION", triggers := ["sql"] },
    { id := "SQL_INJECTION_VULNERABILITY", triggers := ["sql"] }]

/-- **Findings that are not legible hide risk.** The words that tell a risk, in an id, give two
gaps with one key and different risks. Deduplication drops the only gap of the highest risk, and a
run that is to fail at that risk does not. A category that goes on behind another one does the same
harm. -/
theorem illegible_findings_hide_risk :
    (∃ result, ((defaultWith []).analyze (Input.request ⟨[], [lowScript, highScript]⟩)).value =
        .ok result ∧
      highestRank? (gapsOfDefault twoCategories ⟨[], [lowScript, highScript]⟩) = some 2 ∧
      highestRank? result.gaps = some 0 ∧
      Command.thresholdError? (some .high)
          (.ofGaps (gapsOfDefault twoCategories ⟨[], [lowScript, highScript]⟩)) =
        some (.gapsFound .high) ∧
      Command.thresholdError? (some .high) result = none) ∧
    let found :=
      gapsOfDefault twoQueryCategories ⟨[loginTest], [longerCategory, namedVulnerability]⟩
    ∃ gap ∈ found, ∃ other ∈ found,
      gap.key = other.key ∧ gap.risk = .low ∧ other.risk = .critical := by
  constructor
  · let finder : Finder := ⟨twoCategories, Strategy.defaultKey⟩
    have hfound : gapsOfDefault twoCategories ⟨[], [lowScript, highScript]⟩ =
        [finder.orphanGap lowScript, finder.orphanGap highScript] := rfl
    have hkey : (finder.orphanGap lowScript).key = (finder.orphanGap highScript).key := by
      decide
    have hkept : deduplicate (gapsOfDefault twoCategories ⟨[], [lowScript, highScript]⟩) =
        [finder.orphanGap lowScript] := by
      rw [hfound, deduplicate, firstOfEachKey, if_neg List.not_mem_nil, firstOfEachKey, ← hkey,
        if_pos List.mem_cons_self, firstOfEachKey]
    have hlow : (finder.orphanGap lowScript).risk = .low := by decide
    have hhigh : (finder.orphanGap highScript).risk = .high := by decide
    have hresult : ((defaultWith []).analyze (Input.request ⟨[], [lowScript, highScript]⟩)).value =
        .ok (.ofGaps [finder.orphanGap lowScript]) := by
      rw [← hkept]
      exact Detector.value_analyze_of_default_alone rfl rfl rfl
    refine ⟨_, hresult, ?_, ?_, ?_, ?_⟩
    · rw [hfound, highestRank?, List.map_cons, List.map_cons, hlow, hhigh]
      rfl
    · rw [Result.ofGaps, highestRank?, List.map_cons, hlow]
      rfl
    · rw [thresholdError?_ofGaps, hfound, List.any_cons, List.any_cons, hlow, hhigh]
      rfl
    · rw [thresholdError?_ofGaps, List.any_cons, hlow]
      rfl
  · refine ⟨_, Finder.mem_defaultGaps.mpr (.inl (Finder.mem_mappingGaps.mpr
        ⟨loginTest, List.mem_cons_self, longerCategory, List.mem_cons_self, ?_, rfl⟩)),
      _, Finder.mem_defaultGaps.mpr (.inl (Finder.mem_mappingGaps.mpr
        ⟨loginTest, List.mem_cons_self, namedVulnerability,
          List.mem_cons_of_mem _ List.mem_cons_self, ?_, rfl⟩)), ?_, ?_, ?_⟩ <;>
      decide

end Shortfall.Gap

import Shortfall.Gap.Document
import Shortfall.Proofs.Gap.Strategies
import Shortfall.Proofs.Json.Admission

/-!
# What decoded reports keep to

A text is first checked against the rules of its kind and then decoded. The two steps do not agree
on what the members of an object are: the rules go by the exact name and the last of several, a
decoder takes a name in any case and applies each of several. So a report can come out of a checked
text without keeping to the rules. It does keep to them when every member that the decoder applies
would pass, and it always does when members are named once and as the rules name them.

What each of the decoders keeps and brings about is shown from its fields (`Respects`). The lists of
test intents and of vulnerabilities are the parts that a report can lose altogether.

## Main results

* `respects_intentReportDecoder`, `respects_taintReportDecoder`: the decoders and their rules.
* `testIntents_eq_none_iff`, `vulnerabilities_eq_none_iff`: when a report loses its list.
* `Detector.exists_invalid_iff`: when an analysis refuses two reports.
-/

namespace Shortfall.Gap

open Json Json.Decoder

/-! ## Reports that keep to their rules -/

structure IntentSummary.NonNegative (summary : IntentSummary) : Prop where
  totalTests : 0 ≤ summary.totalTests
  highRiskTests : 0 ≤ summary.highRiskTests
  mediumRiskTests : 0 ≤ summary.mediumRiskTests
  lowRiskTests : 0 ≤ summary.lowRiskTests

structure TaintSummary.NonNegative (summary : TaintSummary) : Prop where
  totalVulnerabilities : 0 ≤ summary.totalVulnerabilities
  highSeverity : 0 ≤ summary.highSeverity
  mediumSeverity : 0 ≤ summary.mediumSeverity
  lowSeverity : 0 ≤ summary.lowSeverity

structure Location.NonNegative (location : Location) : Prop where
  line : 0 ≤ location.line
  column : 0 ≤ location.column

/-- An intent report as the rules want it. -/
structure IntentReport.Conforms (report : IntentReport) : Prop where
  listed : ∃ intents, report.testIntents? = some intents ∧
    ∀ intent ∈ intents, intent.testName ≠ []
  counted : report.summary.NonNegative

/-- A taint report as the rules want it. -/
structure TaintReport.Conforms (report : TaintReport) : Prop where
  listed : ∃ vulnerabilities, report.vulnerabilities? = some vulnerabilities ∧
    ∀ vulnerability ∈ vulnerabilities, vulnerability.type ≠ [] ∧
      vulnerability.source.NonNegative ∧ vulnerability.sink.NonNegative
  counted : report.summary.NonNegative

/-! ## Checked and decoded texts -/

private theorem validate_eq_ok {kind : DocumentKind} {rule : Rule} {text : Text}
    (h : validate kind rule text = .ok ()) :
    ∃ value rest, first? text = some (value, rest) ∧ rule.check [] value = [] := by
  rw [validate] at h
  split at h
  · cases h
  · next value rest hfirst =>
      split at h
      · next hproblems =>
          have hperm := List.mergeSort_perm (rule.check [] value) Rule.Problem.le
          rw [Rule.problems] at hproblems
          rw [hproblems] at hperm
          exact ⟨value, rest, hfirst, hperm.nil_eq.symm⟩
      · cases h

/-- What a record makes of the value of a text. -/
theorem makes_of_run? {α : Type} {naming : Naming} {fields : List (Decoder.Field α)}
    {blank draft : α} {text rest : Text} {value : Json} (hnaming : naming.Fair)
    (hfields : ∀ field ∈ fields, field.Sound) (hfirst : first? text = some (value, rest))
    (h : Decoder.run? (recordWith naming fields) blank text = some draft) :
    Makes (recordWith naming fields) blank value draft := by
  rw [Decoder.run?] at h
  split at h
  · cases h
  · next read rest' hread =>
      split at h
      · cases h
        obtain ⟨rfl, _⟩ := recordWith_cases hnaming hfields hfirst hread
        exact ⟨_, _, _, _, _, hfirst, hread⟩
      · cases h

/-! ## Intent reports -/

theorem respects_intentDecoder :
    Respects intentDecoder testIntentRule Anything fun draft => draft.testName ≠ [] := by
  refine respects_record_of_required fair_general ?_ (.head _) (.head _)
    (Naming.field?_cons_self rfl) ?_
  · simp only [List.forall_mem_cons]
    refine ⟨?_, ?_, ?_, ?_, by simp⟩
    · exact Field.respects_of (by decide) (.head _) respects_nonemptyText (fun _ => trivial)
        fun _ _ hname => ⟨trivial, fun _ => hname⟩
    · exact Field.respects_of (by decide) (.tail _ (.head _)) (respects_of_agrees agrees_text _)
        (fun _ => trivial) fun _ _ _ => ⟨trivial, id⟩
    · exact Field.respects_of (by decide) (.tail _ (.tail _ (.head _)))
        (respects_of_agrees (agrees_list agrees_text) _) (fun _ => trivial)
        fun _ _ _ => ⟨trivial, id⟩
    · exact Field.respects_of (by decide) (.tail _ (.tail _ (.tail _ (.head _))))
        (respects_of_agrees (agrees_word _) _) (fun _ => trivial) fun _ _ _ => ⟨trivial, id⟩
  · intro record next value hadmits hmakes _
    obtain ⟨read, hread, rfl⟩ := makes_of hmakes
    exact (respects_nonemptyText.makes hadmits hread trivial).2

private theorem respects_intentSummaryDecoder :
    Respects intentSummaryDecoder intentSummaryRule IntentSummary.NonNegative Anything := by
  refine respects_record fair_general ?_
  simp only [List.forall_mem_cons]
  refine ⟨?_, ?_, ?_, ?_, by simp⟩
  · exact Field.respects_of (by decide) (.head _) respects_count (fun _ => trivial)
      fun hrest _ hcount => ⟨{ hrest with totalTests := hcount }, id⟩
  · exact Field.respects_of (by decide) (.tail _ (.head _)) respects_count (fun _ => trivial)
      fun hrest _ hcount => ⟨{ hrest with highRiskTests := hcount }, id⟩
  · exact Field.respects_of (by decide) (.tail _ (.tail _ (.head _))) respects_count
      (fun _ => trivial) fun hrest _ hcount => ⟨{ hrest with mediumRiskTests := hcount }, id⟩
  · exact Field.respects_of (by decide) (.tail _ (.tail _ (.tail _ (.head _)))) respects_count
      (fun _ => trivial) fun hrest _ hcount => ⟨{ hrest with lowRiskTests := hcount }, id⟩

/-- What an intent report keeps to while it is read. -/
structure IntentReportDraft.Sound (draft : IntentReportDraft) : Prop where
  named : Stocked Anything (fun intent => intent.testName ≠ []) draft.testIntents
  counted : draft.summary.NonNegative

theorem intentReportFields_respect : ∀ field ∈ intentReportFields,
    field.Respects [("testIntents", .list false testIntentRule), ("summary", intentSummaryRule)]
      IntentReportDraft.Sound fun draft => draft.testIntents ≠ none := by
  simp only [intentReportFields, List.forall_mem_cons]
  refine ⟨?_, ?_, by simp⟩
  · exact Field.respects_of (by decide) (.head _)
      (respects_list respects_intentDecoder trivial) (fun hdraft => hdraft.named)
      fun hdraft hnamed hsome => ⟨{ hdraft with named := hnamed }, fun _ => hsome⟩
  · exact Field.respects_of (by decide) (.tail _ (.head _)) respects_intentSummaryDecoder
      (fun hdraft => hdraft.counted)
      fun hdraft hcounted _ => ⟨{ hdraft with counted := hcounted }, id⟩

theorem respects_intentReportDecoder :
    Respects intentReportDecoder intentRule IntentReportDraft.Sound
      fun draft => draft.testIntents ≠ none := by
  refine respects_record_of_required fair_general intentReportFields_respect (.head _) (.head _)
    (Naming.field?_cons_self rfl) ?_
  intro record next value hadmits hmakes hrecord
  obtain ⟨read, hread, rfl⟩ := makes_of hmakes
  exact ((respects_list respects_intentDecoder trivial).makes hadmits hread hrecord.named).2

theorem IntentReport.parse_eq_ok {text : Text} {report : IntentReport}
    (h : IntentReport.parse text = .ok report) :
    ∃ value rest draft, first? text = some (value, rest) ∧ intentRule.check [] value = [] ∧
      Makes intentReportDecoder {} value draft ∧
      report.testIntents? = (items? draft.testIntents).map (·.map IntentDraft.intent) ∧
      report.summary = draft.summary := by
  rw [IntentReport.parse] at h
  split at h
  · cases h
  · next hvalid =>
      split at h
      · cases h
      · next draft hrun =>
          cases h
          obtain ⟨value, rest, hfirst, hcheck⟩ := validate_eq_ok hvalid
          have hsound := fun field hfield => (intentReportFields_respect field hfield).sound
          exact ⟨value, rest, draft, hfirst, hcheck, makes_of_run? fair_general hsound hfirst hrun,
            rfl, rfl⟩

theorem IntentReport.conforms_of_makes {value : Json} {draft : IntentReportDraft}
    {report : IntentReport} (hadmits : intentRule.admits value = true)
    (h : Makes intentReportDecoder {} value draft)
    (hlist : report.testIntents? = (items? draft.testIntents).map (·.map IntentDraft.intent))
    (hsummary : report.summary = draft.summary) : report.Conforms := by
  have hblank : IntentReportDraft.Sound {} :=
    ⟨fun _ hnone => (nomatch hnone), ⟨by decide, by decide, by decide, by decide⟩⟩
  obtain ⟨hsound, hsome⟩ := respects_intentReportDecoder.makes hadmits h hblank
  obtain ⟨cells, hcells⟩ := Option.ne_none_iff_exists'.mp hsome
  refine ⟨⟨cells.items.map IntentDraft.intent, by rw [hlist, hcells]; rfl, ?_⟩, ?_⟩
  · intro intent hintent
    obtain ⟨draft, hdraft, rfl⟩ := List.mem_map.mp hintent
    exact (hsound.named cells hcells).2 draft hdraft
  · rw [hsummary]
    exact hsound.counted

theorem testIntents_eq_none_iff {members : List (Text × Json)} {draft : IntentReportDraft}
    {inner : Json} (h : Makes intentReportDecoder {} (.object members) draft)
    (hpresent : (("testIntents" : Text), inner) ∈ members) :
    draft.testIntents = none ↔ Naming.general.last? "testIntents" members = some .null := by
  have hsound := fun field hfield => (intentReportFields_respect field hfield).sound
  have hsummary : Text.lower "summary" ≠ Text.lower "testIntents" := by decide
  apply makes_eq_none_iff fair_general hsound h (·.testIntents) "testIntents" rfl hpresent
  · simp only [intentReportFields, List.forall_mem_cons]
    refine ⟨?_, fun hname => absurd hname hsummary, by simp⟩
    intro _ record value next hmakes
    obtain ⟨read, hread, rfl⟩ := makes_of hmakes
    exact makes_list_eq_none_iff respects_intentDecoder.agrees hread
  · simp only [intentReportFields, List.forall_mem_cons]
    refine ⟨fun hname => absurd rfl hname, ?_, by simp⟩
    intro _ record value next hmakes
    obtain ⟨read, _, rfl⟩ := makes_of hmakes
    rfl
  · exact ⟨_, .head _, rfl⟩

/-! ## Taint reports -/

private theorem respects_locationDecoder :
    Respects locationDecoder locationRule Location.NonNegative Anything := by
  refine respects_record fair_plain ?_
  simp only [List.forall_mem_cons]
  refine ⟨?_, ?_, ?_, by simp⟩
  · exact Field.respects_of (by decide) (.head _) (respects_of_agrees agrees_text _)
      (fun _ => trivial) fun hrest _ _ => ⟨{ hrest with }, id⟩
  · exact Field.respects_of (by decide) (.tail _ (.head _)) respects_count (fun _ => trivial)
      fun hrest _ hcount => ⟨{ hrest with line := hcount }, id⟩
  · exact Field.respects_of (by decide) (.tail _ (.tail _ (.head _))) respects_count
      (fun _ => trivial) fun hrest _ hcount => ⟨{ hrest with column := hcount }, id⟩

/-- What a vulnerability keeps to while it is read. -/
structure VulnerabilityDraft.Located (draft : VulnerabilityDraft) : Prop where
  source : draft.source.NonNegative
  sink : draft.sink.NonNegative

private theorem respects_vulnerabilityDecoder :
    Respects vulnerabilityDecoder vulnerabilityRule VulnerabilityDraft.Located
      fun draft => draft.type ≠ [] := by
  have hid : Text.lower "id" ≠ Text.lower "type" := by decide
  refine respects_record_of_required fair_general ?_ (.head _) (.tail _ (.head _))
    ((Naming.field?_cons_of_ne hid).trans (Naming.field?_cons_self rfl)) ?_
  · simp only [List.forall_mem_cons]
    refine ⟨?_, ?_, ?_, ?_, ?_, ?_, by simp⟩
    · exact Field.respects_of (by decide) (.head _) (respects_of_agrees agrees_text _)
        (fun _ => trivial) fun hdraft _ _ => ⟨{ hdraft with }, id⟩
    · exact Field.respects_of (by decide) (.tail _ (.head _)) respects_nonemptyText
        (fun _ => trivial) fun hdraft _ htype => ⟨{ hdraft with }, fun _ => htype⟩
    · exact Field.respects_of (by decide) (.tail _ (.tail _ (.head _)))
        (respects_of_agrees agrees_text _) (fun _ => trivial)
        fun hdraft _ _ => ⟨{ hdraft with }, id⟩
    · exact Field.respects_of (by decide) (.tail _ (.tail _ (.tail _ (.head _))))
        respects_locationDecoder (fun hdraft => hdraft.source)
        fun hdraft hsource _ => ⟨{ hdraft with source := hsource }, id⟩
    · exact Field.respects_of (by decide) (.tail _ (.tail _ (.tail _ (.tail _ (.head _)))))
        respects_locationDecoder (fun hdraft => hdraft.sink)
        fun hdraft hsink _ => ⟨{ hdraft with sink := hsink }, id⟩
    · exact Field.respects_of (by decide)
        (.tail _ (.tail _ (.tail _ (.tail _ (.tail _ (.head _))))))
        (respects_of_agrees (agrees_list agrees_text) _) (fun _ => trivial)
        fun hdraft _ _ => ⟨{ hdraft with }, id⟩
  · intro record next value hadmits hmakes _
    obtain ⟨read, hread, rfl⟩ := makes_of hmakes
    exact (respects_nonemptyText.makes hadmits hread trivial).2

private theorem respects_taintSummaryDecoder :
    Respects taintSummaryDecoder taintSummaryRule TaintSummary.NonNegative Anything := by
  refine respects_record fair_general ?_
  simp only [List.forall_mem_cons]
  refine ⟨?_, ?_, ?_, ?_, by simp⟩
  · exact Field.respects_of (by decide) (.head _) respects_count (fun _ => trivial)
      fun hrest _ hcount => ⟨{ hrest with totalVulnerabilities := hcount }, id⟩
  · exact Field.respects_of (by decide) (.tail _ (.head _)) respects_count (fun _ => trivial)
      fun hrest _ hcount => ⟨{ hrest with highSeverity := hcount }, id⟩
  · exact Field.respects_of (by decide) (.tail _ (.tail _ (.head _))) respects_count
      (fun _ => trivial) fun hrest _ hcount => ⟨{ hrest with mediumSeverity := hcount }, id⟩
  · exact Field.respects_of (by decide) (.tail _ (.tail _ (.tail _ (.head _)))) respects_count
      (fun _ => trivial) fun hrest _ hcount => ⟨{ hrest with lowSeverity := hcount }, id⟩

/-- What a taint report keeps to while it is read. -/
structure TaintReportDraft.Sound (draft : TaintReportDraft) : Prop where
  typed : Stocked VulnerabilityDraft.Located (fun vulnerability => vulnerability.type ≠ [])
    draft.vulnerabilities
  counted : draft.summary.NonNegative

private theorem respects_vulnerabilities :
    Respects (.list {} vulnerabilityDecoder) (.list false vulnerabilityRule)
      (Stocked VulnerabilityDraft.Located fun vulnerability => vulnerability.type ≠ [])
      (· ≠ none) :=
  respects_list respects_vulnerabilityDecoder ⟨⟨by decide, by decide⟩, ⟨by decide, by decide⟩⟩

theorem taintReportFields_respect : ∀ field ∈ taintReportFields,
    field.Respects
      [("vulnerabilities", .list false vulnerabilityRule), ("summary", taintSummaryRule)]
      TaintReportDraft.Sound fun draft => draft.vulnerabilities ≠ none := by
  simp only [taintReportFields, List.forall_mem_cons]
  refine ⟨?_, ?_, by simp⟩
  · exact Field.respects_of (by decide) (.head _) respects_vulnerabilities
      (fun hdraft => hdraft.typed)
      fun hdraft htyped hsome => ⟨{ hdraft with typed := htyped }, fun _ => hsome⟩
  · exact Field.respects_of (by decide) (.tail _ (.head _)) respects_taintSummaryDecoder
      (fun hdraft => hdraft.counted)
      fun hdraft hcounted _ => ⟨{ hdraft with counted := hcounted }, id⟩

private theorem lower_vulnerabilities :
    Text.lower "vulnerabilities" = Text.lowerAscii "vulnerabilities" :=
  Text.lower_eq_of_lowerAscii_eq (by decide) rfl

theorem respects_taintReportDecoder :
    Respects taintReportDecoder taintRule TaintReportDraft.Sound
      fun draft => draft.vulnerabilities ≠ none := by
  refine respects_record_of_required fair_plain taintReportFields_respect (.head _) (.head _)
    (Naming.field?_cons_self lower_vulnerabilities) ?_
  intro record next value hadmits hmakes hrecord
  obtain ⟨read, hread, rfl⟩ := makes_of hmakes
  exact (respects_vulnerabilities.makes hadmits hread hrecord.typed).2

theorem TaintReport.parse_eq_ok {text : Text} {report : TaintReport}
    (h : TaintReport.parse text = .ok report) :
    ∃ value rest draft, first? text = some (value, rest) ∧ taintRule.check [] value = [] ∧
      Makes taintReportDecoder {} value draft ∧
      report.vulnerabilities? =
        (items? draft.vulnerabilities).map (·.map VulnerabilityDraft.vulnerability) ∧
      report.summary = draft.summary := by
  rw [TaintReport.parse] at h
  split at h
  · cases h
  · next hvalid =>
      split at h
      · cases h
      · next draft hrun =>
          cases h
          obtain ⟨value, rest, hfirst, hcheck⟩ := validate_eq_ok hvalid
          have hsound := fun field hfield => (taintReportFields_respect field hfield).sound
          exact ⟨value, rest, draft, hfirst, hcheck, makes_of_run? fair_plain hsound hfirst hrun,
            rfl, rfl⟩

theorem TaintReport.conforms_of_makes {value : Json} {draft : TaintReportDraft}
    {report : TaintReport} (hadmits : taintRule.admits value = true)
    (h : Makes taintReportDecoder {} value draft)
    (hlist : report.vulnerabilities? =
      (items? draft.vulnerabilities).map (·.map VulnerabilityDraft.vulnerability))
    (hsummary : report.summary = draft.summary) : report.Conforms := by
  have hblank : TaintReportDraft.Sound {} :=
    ⟨fun _ hnone => (nomatch hnone), ⟨by decide, by decide, by decide, by decide⟩⟩
  obtain ⟨hsound, hsome⟩ := respects_taintReportDecoder.makes hadmits h hblank
  obtain ⟨cells, hcells⟩ := Option.ne_none_iff_exists'.mp hsome
  obtain ⟨hlocated, htyped⟩ := hsound.typed cells hcells
  refine ⟨⟨cells.items.map VulnerabilityDraft.vulnerability, by rw [hlist, hcells]; rfl, ?_⟩, ?_⟩
  · intro vulnerability hvulnerability
    obtain ⟨draft, hdraft, rfl⟩ := List.mem_map.mp hvulnerability
    have hplaces := hlocated draft (List.mem_append_left _ hdraft)
    exact ⟨htyped draft hdraft, hplaces.source, hplaces.sink⟩
  · rw [hsummary]
    exact hsound.counted

theorem vulnerabilities_eq_none_iff {members : List (Text × Json)} {draft : TaintReportDraft}
    {inner : Json} (h : Makes taintReportDecoder {} (.object members) draft)
    (hpresent : (("vulnerabilities" : Text), inner) ∈ members) :
    draft.vulnerabilities = none ↔ Naming.plain.last? "vulnerabilities" members = some .null := by
  have hsound := fun field hfield => (taintReportFields_respect field hfield).sound
  have hsummary : Text.lower "summary" ≠ Text.lower "vulnerabilities" := by decide
  apply makes_eq_none_iff fair_plain hsound h (·.vulnerabilities) "vulnerabilities"
    lower_vulnerabilities.symm hpresent
  · simp only [taintReportFields, List.forall_mem_cons]
    refine ⟨?_, fun hname => absurd hname hsummary, by simp⟩
    intro _ record value next hmakes
    obtain ⟨read, hread, rfl⟩ := makes_of hmakes
    exact makes_list_eq_none_iff respects_vulnerabilityDecoder.agrees hread
  · simp only [taintReportFields, List.forall_mem_cons]
    refine ⟨fun hname => absurd rfl hname, ?_, by simp⟩
    intro _ record value next hmakes
    obtain ⟨read, _, rfl⟩ := makes_of hmakes
    rfl
  · exact ⟨_, .head _, rfl⟩

/-! ## Both reports -/

/-- An analysis refuses two reports when a list is missing from one of them, and only then. -/
theorem Detector.exists_invalid_iff (detector : Detector) (fill : List Strategy → Request → Slots)
    (intent : IntentReport) (taint : TaintReport) :
    (∃ error, (detector.analyzeWith fill { intent? := some intent, taint? := some taint }).value =
      .error (.invalid error)) ↔ intent.testIntents? = none ∨ taint.vulnerabilities? = none := by
  rw [Detector.analyzeWith]
  cases hintents : intent.testIntents? with
  | none => simp [Request.input, hintents]
  | some intents =>
      cases hvulnerabilities : taint.vulnerabilities? with
      | none => simp [Request.input, hintents, hvulnerabilities]
      | some vulnerabilities =>
          simp only [Request.input, hintents, hvulnerabilities]
          split <;> simp

/-- **What decoded reports keep to.** A text that gives a report is an object. If the rules admit
all members that the decoder applies, the report keeps to the rules, and they do admit all of them
where each member is named once and as in the rules. Otherwise a list can be missing from the
report: it is when the last member of its name, in any case, is nothing. An analysis then refuses
the report, and in no other case. -/
theorem decoded_reports_conform (intentText taintText : Text) (intent : IntentReport)
    (taint : TaintReport) (detector : Detector) (fill : List Strategy → Request → Slots) :
    (IntentReport.parse intentText = .ok intent →
      ∃ members rest, first? intentText = some (.object members, rest) ∧
        (intentRule.isClear (.object members) = true →
          intentRule.admits (.object members) = true) ∧
        (intentRule.admits (.object members) = true → intent.Conforms) ∧
        (intent.testIntents? = none ↔
          Naming.general.last? "testIntents" members = some .null)) ∧
    (TaintReport.parse taintText = .ok taint →
      ∃ members rest, first? taintText = some (.object members, rest) ∧
        (taintRule.isClear (.object members) = true → taintRule.admits (.object members) = true) ∧
        (taintRule.admits (.object members) = true → taint.Conforms) ∧
        (taint.vulnerabilities? = none ↔
          Naming.plain.last? "vulnerabilities" members = some .null)) ∧
    ((∃ error, (detector.analyzeWith fill { intent? := some intent, taint? := some taint }).value =
      .error (.invalid error)) ↔ intent.testIntents? = none ∨ taint.vulnerabilities? = none) := by
  refine ⟨?_, ?_, detector.exists_invalid_iff fill intent taint⟩
  · intro hparse
    obtain ⟨value, rest, draft, hfirst, hcheck, hmakes, hlist, hsummary⟩ :=
      IntentReport.parse_eq_ok hparse
    obtain ⟨members, rfl, hpresent⟩ := Rule.exists_members_of_check hcheck
    obtain ⟨inner, hinner⟩ := hpresent "testIntents" (.head _)
    refine ⟨members, rest, hfirst, Rule.admits_of_check _ _ _ hcheck, ?_, ?_⟩
    · intro hadmits
      exact IntentReport.conforms_of_makes hadmits hmakes hlist hsummary
    · rw [← testIntents_eq_none_iff hmakes hinner, hlist, Option.map_eq_none_iff,
        Decoder.items?, Option.map_eq_none_iff]
  · intro hparse
    obtain ⟨value, rest, draft, hfirst, hcheck, hmakes, hlist, hsummary⟩ :=
      TaintReport.parse_eq_ok hparse
    obtain ⟨members, rfl, hpresent⟩ := Rule.exists_members_of_check hcheck
    obtain ⟨inner, hinner⟩ := hpresent "vulnerabilities" (.head _)
    refine ⟨members, rest, hfirst, Rule.admits_of_check _ _ _ hcheck, ?_, ?_⟩
    · intro hadmits
      exact TaintReport.conforms_of_makes hadmits hmakes hlist hsummary
    · rw [← vulnerabilities_eq_none_iff hmakes hinner, hlist, Option.map_eq_none_iff,
        Decoder.items?, Option.map_eq_none_iff]

/-- A report that names each member once. -/
def plainIntents : Text := "\x7b\"testIntents\":[\x7b\"testName\":\"login\"\x7d]\x7d"

theorem plainIntents_conform :
    ∃ report, IntentReport.parse plainIntents = .ok report ∧ report.Conforms := by
  have hparse : IntentReport.parse plainIntents =
      .ok { testIntents? := some [{ testName := "login" }] } := by decide +kernel
  have hclear : (first? plainIntents).all (intentRule.isClear ·.1) = true := by decide +kernel
  obtain ⟨members, rest, hfirst, hadmits, hconforms, _⟩ :=
    (decoded_reports_conform _ [] _ {} (defaultWith []) (fillSlots · · [])).1 hparse
  rw [hfirst] at hclear
  exact ⟨_, hparse, hconforms (hadmits hclear)⟩

/-- A report that takes back its list in a member that the rules do not see. -/
def withdrawnIntents : Text := "\x7b\"testIntents\":[],\"TESTINTENTS\":null\x7d"

/-- A report without findings. -/
def noFindings : Text := "\x7b\"vulnerabilities\":[]\x7d"

/-- Decoded reports need not keep to their rules, and an analysis can refuse them. -/
theorem decoded_report_without_intents :
    (¬∀ text report, IntentReport.parse text = .ok report → report.Conforms) ∧
      ¬∀ (detector : Detector) (intentText taintText : Text) (intent : IntentReport)
        (taint : TaintReport) (error : InputError), IntentReport.parse intentText = .ok intent →
          TaintReport.parse taintText = .ok taint →
            (detector.analyze { intent? := some intent, taint? := some taint }).value ≠
              .error (.invalid error) := by
  have hintent : IntentReport.parse withdrawnIntents = .ok {} := by decide +kernel
  have htaint : TaintReport.parse noFindings = .ok { vulnerabilities? := some [] } := by
    decide +kernel
  constructor
  · intro hall
    obtain ⟨_, hsome, _⟩ := (hall _ _ hintent).listed
    cases hsome
  · intro hnever
    exact hnever (defaultWith []) _ _ _ _ .noTestIntents hintent htaint rfl

end Shortfall.Gap

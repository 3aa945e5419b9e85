import Shortfall.Proofs.Gap.Additional
import Shortfall.Proofs.Gap.Strategies

/-!
# What other strategies add to the default one

The strategies of the library build their gaps from the same texts, so a gap that two of them find
has one key, and a detector reports it once. Behind the default strategy, the default strategy
itself, the one for declared risks and the one for coverage find nothing new; the semantic one adds
the pairs that are related only by the description of the test.

## Main results

* `key_mem_of_subsumed`: what three of the strategies find has a key of the default strategy.
* `firstOfEachKey_contributions`: what is new with the semantic strategy.
* `default_subsumes_others`: what a detector makes of them.
-/

namespace Shortfall.Gap

/-! ## Gaps that are put in -/

theorem WithInserted.append {α : Type} {P : α → Prop} {xs ys xs' ys' : List α}
    (h : WithInserted P xs ys) (h' : WithInserted P xs' ys') :
    WithInserted P (xs ++ xs') (ys ++ ys') := by
  induction h with
  | nil => exact h'
  | keep x _ ih => exact .keep x ih
  | insert hx _ ih => exact .insert hx ih

/-- Gaps with a key that was met before may be put in anywhere. -/
theorem WithInserted.firstOfEachKey_eq {seen met : List (Text × Text × Text)}
    {gaps more : List SecurityGap} (h : WithInserted (fun gap => gap.key ∈ seen) gaps more)
    (hmet : ∀ key ∈ seen, key ∈ met) : firstOfEachKey met more = firstOfEachKey met gaps := by
  induction h generalizing met with
  | nil => rfl
  | keep gap _ ih =>
      rw [firstOfEachKey, firstOfEachKey, ih hmet,
        ih fun key hkey => List.mem_cons_of_mem gap.key (hmet key hkey)]
  | insert hgap _ ih =>
      rw [firstOfEachKey, if_pos (hmet _ hgap)]
      exact ih hmet

namespace Finder

variable {finder : Finder} {input : Input}

/-- The gaps of the pairs that are related only by the description of the test. -/
def inferredGaps (finder : Finder) (input : Input) : List SecurityGap :=
  input.intents.flatMap fun intent =>
    (input.vulnerabilities.filter (finder.isInferred intent)).map (finder.inferredGap intent)

theorem mem_inferredGaps {gap : SecurityGap} :
    gap ∈ finder.inferredGaps input ↔
      ∃ intent ∈ input.intents, ∃ v ∈ input.vulnerabilities,
        finder.isInferred intent v = true ∧ finder.inferredGap intent v = gap := by
  simp only [inferredGaps, List.mem_flatMap, List.mem_map, List.mem_filter, and_assoc]

/-- For one test, the semantic analysis gives the inferred gaps with the mapping gaps put in. -/
theorem withInserted_semanticGap? {P : SecurityGap → Prop} (intent : TestIntent)
    (vs : List Vulnerability)
    (h : ∀ v ∈ vs, finder.related intent v = true → P (finder.mappingGap intent v)) :
    WithInserted P ((vs.filter (finder.isInferred intent)).map (finder.inferredGap intent))
      (vs.filterMap (finder.semanticGap? intent)) := by
  induction vs with
  | nil => exact .nil
  | cons v rest ih =>
      have hrest := ih fun w hw => h w (List.mem_cons_of_mem v hw)
      by_cases hrelated : finder.related intent v = true
      · have hinferred : ¬finder.isInferred intent v = true := by simp [isInferred, hrelated]
        have hgap : finder.semanticGap? intent v = some (finder.mappingGap intent v) := by
          rw [semanticGap?, if_pos hrelated]
        rw [List.filter_cons_of_neg hinferred, List.filterMap_cons_some hgap]
        exact .insert (h v List.mem_cons_self hrelated) hrest
      · by_cases hinferred : finder.isInferred intent v = true
        · have hgap : finder.semanticGap? intent v = some (finder.inferredGap intent v) := by
            rw [semanticGap?, if_neg hrelated, if_pos hinferred]
          rw [List.filter_cons_of_pos hinferred, List.filterMap_cons_some hgap]
          exact .keep _ hrest
        · have hgap : finder.semanticGap? intent v = none := by
            rw [semanticGap?, if_neg hrelated, if_neg hinferred]
          rw [List.filter_cons_of_neg hinferred, List.filterMap_cons_none hgap]
          exact hrest

private theorem withInserted_semanticGaps {P : SecurityGap → Prop}
    (h : ∀ gap ∈ finder.mappingGaps input, P gap) :
    WithInserted P (finder.inferredGaps input) (finder.semanticGaps input) := by
  have hpairs : ∀ intents : List TestIntent, (∀ intent ∈ intents, intent ∈ input.intents) →
      WithInserted P
        (intents.flatMap fun intent =>
          (input.vulnerabilities.filter (finder.isInferred intent)).map (finder.inferredGap intent))
        (intents.flatMap fun intent =>
          input.vulnerabilities.filterMap (finder.semanticGap? intent)) := by
    intro intents hintents
    induction intents with
    | nil => exact .nil
    | cons intent rest ih =>
        have hintent := hintents intent List.mem_cons_self
        have hfirst := withInserted_semanticGap? intent input.vulnerabilities fun v hv hrelated =>
          h _ (mem_mappingGaps.mpr ⟨intent, hintent, v, hv, hrelated, rfl⟩)
        have hrest := ih fun other hother => hintents other (List.mem_cons_of_mem intent hother)
        exact hfirst.append hrest
  exact hpairs input.intents fun _ hintent => hintent

end Finder

/-! ## Strategies behind the default one -/

section Behind

variable {catalog : Catalog} {request : Request} {input : Input} {strategy : Strategy}

/-- The strategies that look for nothing that the default one does not look for. -/
def subsumedStrategies (catalog : Catalog) : List Strategy :=
  [.default catalog, .riskBased catalog, .coverageBased catalog]

private theorem semantic_not_mem_subsumed (catalog : Catalog) :
    Strategy.semantic catalog ∉ subsumedStrategies catalog := by
  intro hmem
  have hname : Strategy.semanticKey ∈
      [Strategy.defaultKey, Strategy.riskBasedKey, Strategy.coverageBasedKey] :=
    List.mem_map_of_mem (f := Strategy.name) hmem
  exact absurd hname (by decide)

/-- A gap has the same key under whatever name it was found. -/
theorem key_mem_of_subsumed (hinput : request.input = .ok input)
    (hstrategy : strategy ∈ subsumedStrategies catalog) {gap : SecurityGap}
    (hgap : gap ∈ strategy.contribution request) :
    gap.key ∈ (gapsOfDefault catalog input).map SecurityGap.key := by
  simp only [subsumedStrategies, List.mem_cons, List.not_mem_nil, or_false] at hstrategy
  rcases hstrategy with rfl | rfl | rfl
  · rw [Strategy.contribution_default hinput] at hgap
    exact List.mem_map_of_mem hgap
  · rw [Strategy.contribution_riskBased hinput] at hgap
    obtain ⟨intent, hintent, v, hv, hrelated, hunder, rfl⟩ := Finder.mem_mismatchGaps.mp hgap
    have hmismatch : Finder.mismatchGap ⟨catalog, Strategy.defaultKey⟩ intent v ∈
        Finder.mismatchGaps ⟨catalog, Strategy.defaultKey⟩ input :=
      Finder.mem_mismatchGaps.mpr ⟨intent, hintent, v, hv, hrelated, hunder, rfl⟩
    exact List.mem_map.mpr ⟨_, Finder.mem_defaultGaps.mpr (.inr (.inr (.inl hmismatch))), rfl⟩
  · rw [Strategy.contribution_coverageBased hinput] at hgap
    obtain ⟨v, hv, huncovered, rfl⟩ := Finder.mem_orphanGaps.mp hgap
    have horphan : Finder.orphanGap ⟨catalog, Strategy.defaultKey⟩ v ∈
        Finder.orphanGaps ⟨catalog, Strategy.defaultKey⟩ input :=
      Finder.mem_orphanGaps.mpr ⟨v, hv, huncovered, rfl⟩
    exact List.mem_map.mpr ⟨_, Finder.mem_defaultGaps.mpr (.inr (.inr (.inr horphan))), rfl⟩

/-- A related pair gives the semantic strategy no key of its own. -/
theorem key_mappingGap_mem {gap : SecurityGap} {name : Text}
    (hgap : gap ∈ Finder.mappingGaps { catalog, name } input) :
    gap.key ∈ (gapsOfDefault catalog input).map SecurityGap.key := by
  obtain ⟨intent, hintent, v, hv, hrelated, rfl⟩ := Finder.mem_mappingGaps.mp hgap
  have hmapping : Finder.mappingGap ⟨catalog, Strategy.defaultKey⟩ intent v ∈
      Finder.mappingGaps ⟨catalog, Strategy.defaultKey⟩ input :=
    Finder.mem_mappingGaps.mpr ⟨intent, hintent, v, hv, hrelated, rfl⟩
  exact List.mem_map.mpr ⟨_, Finder.mem_defaultGaps.mpr (.inl hmapping), rfl⟩

/-- Of what is found behind the default strategy, only the inferred gaps are new, and they are new
once. -/
theorem firstOfEachKey_contributions {strategies : List Strategy}
    {seen : List (Text × Text × Text)} (hinput : request.input = .ok input)
    (hseen : ∀ key ∈ (gapsOfDefault catalog input).map SecurityGap.key, key ∈ seen)
    (hdrawn : ∀ strategy ∈ strategies,
      strategy ∈ subsumedStrategies catalog ∨ strategy = .semantic catalog)
    (hsemantic : Strategy.semantic catalog ∈ strategies) :
    firstOfEachKey seen (strategies.flatMap (·.contribution request)) =
      firstOfEachKey seen
        (Finder.inferredGaps { catalog, name := Strategy.semanticKey } input) := by
  induction strategies with
  | nil => exact absurd hsemantic List.not_mem_nil
  | cons strategy rest ih =>
      have hrest : ∀ other ∈ rest, other ∈ subsumedStrategies catalog ∨ other = .semantic catalog :=
        fun other hother => hdrawn other (List.mem_cons_of_mem strategy hother)
      rw [List.flatMap_cons]
      rcases hdrawn strategy List.mem_cons_self with hsubsumed | rfl
      · have hkeys : ∀ gap ∈ strategy.contribution request, gap.key ∈ seen :=
          fun gap hgap => hseen _ (key_mem_of_subsumed hinput hsubsumed hgap)
        rw [firstOfEachKey_append_of_key_mem hkeys]
        have hne : Strategy.semantic catalog ≠ strategy :=
          fun heq => semantic_not_mem_subsumed catalog (heq ▸ hsubsumed)
        exact ih hrest ((List.mem_cons.mp hsemantic).resolve_left hne)
      · have hlater : ∀ gap ∈ rest.flatMap (·.contribution request), gap.key ∈
            ((Strategy.semantic catalog).contribution request).map SecurityGap.key ++ seen := by
          intro gap hgap
          obtain ⟨other, hother, hfound⟩ := List.mem_flatMap.mp hgap
          rcases hrest other hother with hsubsumed | rfl
          · exact List.mem_append_right _ (hseen _ (key_mem_of_subsumed hinput hsubsumed hfound))
          · exact List.mem_append_left _ (List.mem_map_of_mem hfound)
        have hinserted : WithInserted
            (fun gap => gap.key ∈ (gapsOfDefault catalog input).map SecurityGap.key)
            (Finder.inferredGaps ⟨catalog, Strategy.semanticKey⟩ input)
            (Finder.semanticGaps ⟨catalog, Strategy.semanticKey⟩ input) :=
          Finder.withInserted_semanticGaps fun gap hgap => key_mappingGap_mem hgap
        rw [firstOfEachKey_append, firstOfEachKey_eq_nil hlater, List.append_nil,
          Strategy.contribution_semantic hinput, hinserted.firstOfEachKey_eq hseen]

end Behind

/-- **The default strategy subsumes the others.** Additional strategies drawn from the default one,
the one for declared risks and the one for coverage, in any order and number, do not change the
result of the default strategy alone. With the semantic strategy among them, the gaps of the
default strategy come first, and what follows are the inferred gaps that are not among them, for
pairs in which no requirement of the test is related to the finding but its name or its expected
behavior is. -/
theorem default_subsumes_others (catalog : Catalog) (request : Request) (input : Input)
    (detector : Detector) (hinput : request.input = .ok input)
    (hprimary : detector.primary = Strategy.default catalog) :
    let finder : Finder := { catalog, name := Strategy.semanticKey }
    ∃ alone, ({ detector with additional := [] }.analyze request).value = .ok alone ∧
      ((∀ strategy ∈ detector.additional, strategy ∈ subsumedStrategies catalog) →
        (detector.analyze request).value = .ok alone) ∧
      ((∀ strategy ∈ detector.additional,
          strategy ∈ subsumedStrategies catalog ∨ strategy = .semantic catalog) →
        Strategy.semantic catalog ∈ detector.additional →
        ∃ longer inferred, (detector.analyze request).value = .ok longer ∧
          longer.gaps = alone.gaps ++ inferred ∧
          inferred =
            firstOfEachKey (alone.gaps.map SecurityGap.key) (finder.inferredGaps input) ∧
          ∀ gap ∈ inferred, ∃ intent ∈ input.intents, ∃ v ∈ input.vulnerabilities,
            finder.related intent v = false ∧
            catalog.relatesAny [intent.testName, intent.expectedBehavior] v.type = true ∧
            gap = finder.inferredGap intent v) := by
  intro finder
  have halone : ({ detector with additional := [] }.analyze request).value =
      .ok (.ofGaps (deduplicate (gapsOfDefault catalog input))) :=
    Detector.value_analyze_of_default_alone hinput hprimary rfl
  have hvalue := Detector.value_analyze_of_default hinput hprimary
  rw [deduplicate_append] at hvalue
  refine ⟨_, halone, ?_, ?_⟩
  · intro hdrawn
    have hkeys : ∀ gap ∈ detector.additional.flatMap (·.contribution request),
        gap.key ∈ (deduplicate (gapsOfDefault catalog input)).map SecurityGap.key := by
      intro gap hgap
      obtain ⟨strategy, hstrategy, hfound⟩ := List.mem_flatMap.mp hgap
      rw [mem_map_key_deduplicate]
      exact key_mem_of_subsumed hinput (hdrawn strategy hstrategy) hfound
    rwa [firstOfEachKey_eq_nil hkeys, List.append_nil] at hvalue
  · intro hdrawn hsemantic
    have hnew := firstOfEachKey_contributions hinput
      (fun key hkey => (mem_map_key_deduplicate _ key).mpr hkey) hdrawn hsemantic
    rw [hnew] at hvalue
    refine ⟨_, _, hvalue, rfl, rfl, ?_⟩
    intro gap hgap
    obtain ⟨intent, hintent, v, hv, hinferred, rfl⟩ :=
      Finder.mem_inferredGaps.mp (mem_of_mem_firstOfEachKey hgap)
    rw [Finder.isInferred, Bool.and_eq_true, Bool.not_eq_true'] at hinferred
    exact ⟨intent, hintent, v, hv, hinferred.1, hinferred.2, rfl⟩

/-- A test that says by its name alone that it is about scripts. -/
def scriptTest : TestIntent where
  testName := "script"
  securityRequirements := ["sql"]

def scriptRequest : Request where
  intent? := some { testIntents? := some [scriptTest] }
  taint? := some { vulnerabilities? := some [scriptFinding] }

theorem scriptRequest_subsumed :
    ∃ alone, ((defaultWith []).analyze scriptRequest).value = .ok alone ∧
      ((defaultWith [.coverageBased twoCategories, .riskBased twoCategories,
        .coverageBased twoCategories, .default twoCategories]).analyze scriptRequest).value =
          .ok alone ∧
      ∃ longer, ((defaultWith [.semantic twoCategories, .riskBased twoCategories,
          .semantic twoCategories]).analyze scriptRequest).value = .ok longer ∧
        longer.gaps = alone.gaps ++
          [Finder.inferredGap ⟨twoCategories, Strategy.semanticKey⟩ scriptTest scriptFinding] := by
  let input : Input := ⟨[scriptTest], [scriptFinding]⟩
  obtain ⟨alone, halone, hsubsumed, _⟩ := default_subsumes_others twoCategories scriptRequest input
    (defaultWith [.coverageBased twoCategories, .riskBased twoCategories,
      .coverageBased twoCategories, .default twoCategories]) rfl rfl
  obtain ⟨alone', halone', _, hsemantic⟩ := default_subsumes_others twoCategories scriptRequest
    input (defaultWith [.semantic twoCategories, .riskBased twoCategories,
      .semantic twoCategories]) rfl rfl
  have hsame : alone' = alone := Except.ok.inj (halone'.symm.trans halone)
  subst hsame
  obtain ⟨longer, inferred, hlonger, hgaps, hinferred, _⟩ := hsemantic
    (by simp [defaultWith, subsumedStrategies]) (by simp [defaultWith])
  have hsame := hsubsumed (by simp [defaultWith, subsumedStrategies])
  refine ⟨alone', halone, hsame, longer, hlonger, ?_⟩
  have hvalue : alone' = .ofGaps (deduplicate (gapsOfDefault twoCategories input)) :=
    Except.ok.inj (halone'.symm.trans (Detector.value_analyze_of_default_alone rfl rfl rfl))
  have hpair :
      Finder.isInferred ⟨twoCategories, Strategy.semanticKey⟩ scriptTest scriptFinding = true := by
    decide +kernel
  have hfound : Finder.inferredGaps ⟨twoCategories, Strategy.semanticKey⟩ input =
      [Finder.inferredGap ⟨twoCategories, Strategy.semanticKey⟩ scriptTest scriptFinding] := by
    simp [Finder.inferredGaps, input, hpair]
  have hkey :
      (Finder.inferredGap ⟨twoCategories, Strategy.semanticKey⟩ scriptTest scriptFinding).key ∉
        (deduplicate (gapsOfDefault twoCategories input)).map SecurityGap.key := by
    decide +kernel
  rw [hgaps, hinferred, hvalue, hfound, firstOfEachKey]
  exact congrArg _ (if_neg hkey)

end Shortfall.Gap

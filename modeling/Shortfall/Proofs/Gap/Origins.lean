import Mathlib.Data.List.Nodup
import Shortfall.Proofs.Gap.Strategies

/-!
# Where the gaps of the default strategy come from

The default strategy goes over tests and findings four times, each time with a filter of its own.
To say that nothing is missed and nothing is counted twice, each gap of its output is given an
*origin*: the analysis that it comes from and the test and the finding that it is about, with their
places in the input, so that equal entries at different places stay apart. The output is the list
of the gaps of its origins (`defaultGaps_eq_map_origins`), no origin occurs twice
(`nodup_origins`), and which origins occur is said by one predicate (`mem_origins_iff`).

## Main results

* `every_finding_and_bare_test_reported`: each finding is mapped or an orphan and each test without
  requirements has its gap, also in what a detector makes of them.
-/

namespace Shortfall.Gap

/-! ## Pairs at their places -/

namespace Input

variable {input : Input} {p : TestIntent → Vulnerability → Bool}

/-- The pairs of a test and a finding for which `p` holds, test by test, each with its place. -/
def pairs (input : Input) (p : TestIntent → Vulnerability → Bool) :
    List ((TestIntent × Nat) × (Vulnerability × Nat)) :=
  input.intents.zipIdx.flatMap fun intent =>
    (input.vulnerabilities.zipIdx.filter fun v => p intent.1 v.1).map (Prod.mk intent)

theorem nodup_zipIdx {α : Type} (xs : List α) : xs.zipIdx.Nodup := by
  apply List.Nodup.of_map Prod.snd
  rw [List.zipIdx_map_snd]
  exact List.nodup_range'

private theorem exists_mem_zipIdx {α : Type} {xs : List α} {x : α} (h : x ∈ xs) :
    ∃ placed ∈ xs.zipIdx, placed.1 = x := by
  rw [← List.zipIdx_map_fst 0 xs] at h
  exact List.mem_map.mp h

/-- Filtering the entries of a list at their places is filtering the list. -/
theorem map_filter_zipIdx {α β : Type} (xs : List α) (q : α → Bool) (f : α → β) :
    ((xs.zipIdx.filter fun x => q x.1).map fun x => f x.1) = (xs.filter q).map f := by
  conv_rhs => rw [← List.zipIdx_map_fst 0 xs, List.filter_map, List.map_map]
  rfl

theorem mem_pairs {intent : TestIntent × Nat} {v : Vulnerability × Nat} :
    (intent, v) ∈ input.pairs p ↔
      intent ∈ input.intents.zipIdx ∧ v ∈ input.vulnerabilities.zipIdx ∧
        p intent.1 v.1 = true := by
  simp only [pairs, List.mem_flatMap, List.mem_map, List.mem_filter, Prod.mk.injEq]
  constructor
  · rintro ⟨_, hintent, _, ⟨hv, hp⟩, rfl, rfl⟩
    exact ⟨hintent, hv, hp⟩
  · rintro ⟨hintent, hv, hp⟩
    exact ⟨intent, hintent, v, ⟨hv, hp⟩, rfl, rfl⟩

private theorem nodup_pairs (input : Input) (p : TestIntent → Vulnerability → Bool) :
    (input.pairs p).Nodup := by
  rw [pairs, List.nodup_flatMap]
  constructor
  · intro intent _
    exact ((nodup_zipIdx _).filter _).map (Prod.mk_right_injective intent)
  · refine (nodup_zipIdx input.intents).imp ?_
    intro intent other hne pair hpair hother
    obtain ⟨_, _, rfl⟩ := List.mem_map.mp hpair
    obtain ⟨_, _, hpair⟩ := List.mem_map.mp hother
    exact hne (congrArg Prod.fst hpair).symm

/-- Without their places, the pairs are the tests with the findings that are filtered for each. -/
theorem map_pairs {α : Type} (input : Input) (p : TestIntent → Vulnerability → Bool)
    (f : TestIntent → Vulnerability → α) :
    (input.pairs p).map (fun pair => f pair.1.1 pair.2.1) =
      input.intents.flatMap fun intent =>
        (input.vulnerabilities.filter (p intent)).map (f intent) := by
  rw [pairs, List.map_flatMap]
  conv_rhs => rw [← List.zipIdx_map_fst 0 input.intents, List.flatMap_map]
  congr 1
  funext intent
  rw [List.map_map]
  exact map_filter_zipIdx input.vulnerabilities (p intent.1) (f intent.1)

/-- The pairs with one finding are in the order of the tests. -/
theorem filter_pairs {v : Vulnerability × Nat} (hv : v ∈ input.vulnerabilities.zipIdx) :
    (input.pairs p).filter (fun pair => pair.2 = v) =
      (input.intents.zipIdx.filter fun intent => p intent.1 v.1).map (·, v) := by
  have hone : ∀ intent : TestIntent × Nat,
      ((input.vulnerabilities.zipIdx.filter fun w => p intent.1 w.1).map
        (Prod.mk intent)).filter (fun pair => pair.2 = v) =
        if p intent.1 v.1 then [(intent, v)] else [] := by
    intro intent
    have hfilter : ((input.vulnerabilities.zipIdx.filter fun w => p intent.1 w.1).filter
        fun w => w = v) = if p intent.1 v.1 then [v] else [] := by
      rw [List.filter_eq, ((nodup_zipIdx _).filter _).count]
      by_cases hp : p intent.1 v.1 = true
      · rw [if_pos hp, if_pos (List.mem_filter.mpr ⟨hv, hp⟩)]
        rfl
      · have hmem : v ∉ input.vulnerabilities.zipIdx.filter fun w => p intent.1 w.1 :=
          fun hmem => hp (List.mem_filter.mp hmem).2
        rw [if_neg hp, if_neg hmem]
        rfl
    rw [List.filter_map]
    show List.map (Prod.mk intent) (List.filter (fun w => w = v) _) = _
    rw [hfilter]
    split <;> rfl
  rw [pairs, List.filter_flatMap]
  simp only [hone]
  induction input.intents.zipIdx with
  | nil => rfl
  | cons intent rest ih =>
      rw [List.flatMap_cons, ih, List.filter_cons]
      split <;> rfl

end Input

/-! ## Origins -/

/-- The analysis that a gap comes from, with the test and the finding that it is about. -/
inductive Origin where
  | mapping (intent : TestIntent × Nat) (v : Vulnerability × Nat)
  | coverage (intent : TestIntent × Nat)
  | mismatch (intent : TestIntent × Nat) (v : Vulnerability × Nat)
  | orphan (v : Vulnerability × Nat)
  deriving DecidableEq

namespace Origin

/-- The test that a gap is about. -/
def intent? : Origin → Option (TestIntent × Nat)
  | mapping intent _ | coverage intent | mismatch intent _ => some intent
  | orphan _ => none

/-- Whether a gap maps the given finding to a test. -/
def maps (v : Vulnerability × Nat) : Origin → Bool
  | mapping _ w => w = v
  | _ => false

end Origin

namespace Finder

variable {finder : Finder} {input : Input}

/-- The gap of an origin. -/
def gapAt (finder : Finder) : Origin → SecurityGap
  | .mapping intent v => finder.mappingGap intent.1 v.1
  | .coverage intent => finder.coverageGap intent.1
  | .mismatch intent v => finder.mismatchGap intent.1 v.1
  | .orphan v => finder.orphanGap v.1

/-- The origins of the gaps of the default strategy, in order. -/
def origins (finder : Finder) (input : Input) : List Origin :=
  (input.pairs finder.related).map (fun pair => .mapping pair.1 pair.2)
    ++ (input.intents.zipIdx.filter fun intent => intent.1.securityRequirements.isEmpty).map
      .coverage
    ++ (input.pairs fun intent v => finder.related intent v && isUnderestimated intent v).map
      (fun pair => .mismatch pair.1 pair.2)
    ++ (input.vulnerabilities.zipIdx.filter fun v => !finder.isCovered input.intents v.1).map
      .orphan

theorem defaultGaps_eq_map_origins (finder : Finder) (input : Input) :
    finder.defaultGaps input = (finder.origins input).map finder.gapAt := by
  have hcoverage : finder.coverageGaps input =
      ((input.intents.zipIdx.filter fun intent => intent.1.securityRequirements.isEmpty).map
        Origin.coverage).map finder.gapAt := by
    rw [List.map_map]
    exact (Input.map_filter_zipIdx input.intents _ finder.coverageGap).symm
  have horphan : finder.orphanGaps input =
      ((input.vulnerabilities.zipIdx.filter fun v => !finder.isCovered input.intents v.1).map
        Origin.orphan).map finder.gapAt := by
    rw [List.map_map]
    exact (Input.map_filter_zipIdx input.vulnerabilities _ finder.orphanGap).symm
  have hmapping : finder.mappingGaps input =
      ((input.pairs finder.related).map fun pair => Origin.mapping pair.1 pair.2).map
        finder.gapAt := by
    rw [List.map_map]
    exact (input.map_pairs finder.related finder.mappingGap).symm
  have hmismatch : finder.mismatchGaps input =
      ((input.pairs fun intent v => finder.related intent v && isUnderestimated intent v).map
        fun pair => Origin.mismatch pair.1 pair.2).map finder.gapAt := by
    rw [List.map_map]
    refine Eq.trans ?_ (input.map_pairs
      (fun intent v => finder.related intent v && isUnderestimated intent v)
      finder.mismatchGap).symm
    simp only [mismatchGaps, relatedTo, List.filter_filter, Bool.and_comm]
  rw [defaultGaps, hmapping, hcoverage, hmismatch, horphan, origins]
  simp only [List.map_append]

/-- What it takes for an origin to occur. -/
def Gives (finder : Finder) (input : Input) : Origin → Prop
  | .mapping intent v =>
      intent ∈ input.intents.zipIdx ∧ v ∈ input.vulnerabilities.zipIdx ∧
        finder.related intent.1 v.1 = true
  | .coverage intent => intent ∈ input.intents.zipIdx ∧ intent.1.securityRequirements = []
  | .mismatch intent v =>
      intent ∈ input.intents.zipIdx ∧ v ∈ input.vulnerabilities.zipIdx ∧
        finder.related intent.1 v.1 = true ∧
        intent.1.risk.rank < (Severity.risk v.1.severity).rank
  | .orphan v =>
      v ∈ input.vulnerabilities.zipIdx ∧
        ∀ intent ∈ input.intents, finder.related intent v.1 = false

theorem mem_origins_iff {origin : Origin} :
    origin ∈ finder.origins input ↔ finder.Gives input origin := by
  cases origin with
  | mapping intent v =>
      rw [Gives, ← Input.mem_pairs]
      simp only [origins, List.mem_append, List.mem_map, reduceCtorEq, and_false, exists_false,
        or_false, Origin.mapping.injEq, Prod.exists, exists_eq_right_right, exists_eq_right]
  | coverage intent => simp [origins, Gives]
  | mismatch intent v =>
      have hpairs : (intent, v) ∈ input.pairs (fun intent v =>
          finder.related intent v && isUnderestimated intent v) ↔ _ := Input.mem_pairs
      rw [Bool.and_eq_true, isUnderestimated, decide_eq_true_eq] at hpairs
      rw [Gives, ← hpairs]
      simp only [origins, List.mem_append, List.mem_map, reduceCtorEq, and_false, exists_false,
        or_false, false_or, Origin.mismatch.injEq, Prod.exists, exists_eq_right_right,
        exists_eq_right]
  | orphan v => simp [origins, Gives, isCovered_eq_false_iff]

theorem nodup_origins (finder : Finder) (input : Input) : (finder.origins input).Nodup := by
  have hpairs : ∀ (p : TestIntent → Vulnerability → Bool)
      (make : TestIntent × Nat → Vulnerability × Nat → Origin),
      (∀ intent v other w, make intent v = make other w → intent = other ∧ v = w) →
      ((input.pairs p).map fun pair => make pair.1 pair.2).Nodup := by
    intro p make hmake
    refine (input.nodup_pairs p).map fun pair other heq => ?_
    exact Prod.ext_iff.mpr (hmake _ _ _ _ heq)
  have hmapping := hpairs finder.related .mapping fun _ _ _ _ heq => Origin.mapping.inj heq
  have hmismatch := hpairs (fun intent v => finder.related intent v && isUnderestimated intent v)
    .mismatch fun _ _ _ _ heq => Origin.mismatch.inj heq
  have hcoverage : ((input.intents.zipIdx.filter fun intent =>
      intent.1.securityRequirements.isEmpty).map Origin.coverage).Nodup :=
    ((Input.nodup_zipIdx _).filter _).map fun _ _ heq => Origin.coverage.inj heq
  have horphan : ((input.vulnerabilities.zipIdx.filter fun v =>
      !finder.isCovered input.intents v.1).map Origin.orphan).Nodup :=
    ((Input.nodup_zipIdx _).filter _).map fun _ _ heq => Origin.orphan.inj heq
  -- The four parts are made with different constructors.
  simp only [origins, List.nodup_append, hmapping, hcoverage, hmismatch, horphan, true_and,
    List.mem_append, List.mem_map]
  grind

/-! ## Findings and tests, occurrence by occurrence -/

/-- A finding is mapped once for each test that is related to it, in the order of the tests. -/
theorem filter_maps_origins {v : Vulnerability × Nat} (hv : v ∈ input.vulnerabilities.zipIdx) :
    (finder.origins input).filter (Origin.maps v) =
      (input.intents.zipIdx.filter fun intent => finder.related intent.1 v.1).map
        (Origin.mapping · v) := by
  have hmapping : ((input.pairs finder.related).map
      fun pair => Origin.mapping pair.1 pair.2).filter (Origin.maps v) =
      (input.intents.zipIdx.filter fun intent => finder.related intent.1 v.1).map
        (Origin.mapping · v) := by
    rw [List.filter_map]
    show List.map _ ((input.pairs finder.related).filter fun pair => pair.2 = v) = _
    rw [Input.filter_pairs hv, List.map_map]
    rfl
  simp only [origins, List.filter_append, hmapping]
  simp [List.filter_map, Function.comp_def, Origin.maps]

/-- A finding is an orphan, once, where no test is related to it. -/
theorem count_orphan_origins {v : Vulnerability × Nat} (hv : v ∈ input.vulnerabilities.zipIdx) :
    (finder.origins input).count (.orphan v) =
      if finder.isCovered input.intents v.1 then 0 else 1 := by
  rw [(finder.nodup_origins input).count]
  cases hcovered : finder.isCovered input.intents v.1 with
  | true =>
      have hnot : Origin.orphan v ∉ finder.origins input := by
        rw [mem_origins_iff, Gives, ← isCovered_eq_false_iff, hcovered]
        rintro ⟨_, hfalse⟩
        cases hfalse
      rw [if_neg hnot]
      rfl
  | false =>
      have hmem : Origin.orphan v ∈ finder.origins input :=
        mem_origins_iff.mpr ⟨hv, isCovered_eq_false_iff.mp hcovered⟩
      rw [if_pos hmem]
      rfl

/-- A finding is mapped to some test, or else it is an orphan. -/
theorem mapped_or_orphan {v : Vulnerability × Nat} (hv : v ∈ input.vulnerabilities.zipIdx) :
    ((finder.origins input).filter (Origin.maps v) ≠ [] ∧
        (finder.origins input).count (.orphan v) = 0) ∨
      ((finder.origins input).filter (Origin.maps v) = [] ∧
        (finder.origins input).count (.orphan v) = 1) := by
  rw [count_orphan_origins hv, filter_maps_origins hv]
  cases hcovered : finder.isCovered input.intents v.1 with
  | true =>
      left
      obtain ⟨intent, hintent, hrelated⟩ := List.any_eq_true.mp hcovered
      obtain ⟨placed, hplaced, rfl⟩ := Input.exists_mem_zipIdx hintent
      have hmem := List.mem_map_of_mem (f := (Origin.mapping · v))
        (List.mem_filter (p := fun intent => finder.related intent.1 v.1) |>.mpr
          ⟨hplaced, hrelated⟩)
      exact ⟨List.ne_nil_of_mem hmem, rfl⟩
  | false =>
      right
      refine ⟨?_, rfl⟩
      rw [List.map_eq_nil_iff, List.filter_eq_nil_iff]
      intro intent hintent
      rw [isCovered_eq_false_iff.mp hcovered _ (List.fst_mem_of_mem_zipIdx hintent)]
      exact Bool.false_ne_true

/-- A test without requirements has its coverage gap, and nothing else is about it. -/
theorem filter_intent_origins {intent : TestIntent × Nat} (hintent : intent ∈ input.intents.zipIdx)
    (hnone : intent.1.securityRequirements = []) :
    (finder.origins input).filter (fun origin => origin.intent? = some intent) =
      [.coverage intent] := by
  have hmem : Origin.coverage intent ∈ finder.origins input := mem_origins_iff.mpr ⟨hintent, hnone⟩
  have hrelated : ∀ v, finder.related intent.1 v ≠ true :=
    fun v hrelated => securityRequirements_ne_nil hrelated hnone
  have honly : ∀ origin ∈ finder.origins input,
      decide (origin.intent? = some intent) = decide (origin = .coverage intent) := by
    intro origin horigin
    rw [mem_origins_iff] at horigin
    cases origin with
    | mapping other v =>
        have hother : other ≠ intent := fun heq => hrelated v.1 (heq ▸ horigin.2.2)
        simp [Origin.intent?, hother]
    | coverage other => simp [Origin.intent?]
    | mismatch other v =>
        have hother : other ≠ intent := fun heq => hrelated v.1 (heq ▸ horigin.2.2.1)
        simp [Origin.intent?, hother]
    | orphan v => simp [Origin.intent?]
  rw [List.filter_congr honly, List.filter_eq,
    List.count_eq_one_of_mem (finder.nodup_origins input) hmem]
  rfl

end Finder

/-- **No finding and no bare test is lost.** The output of the default strategy is the list of the
gaps of its origins, none of which occurs twice. A finding has one mapping gap for each test that
is related to it, in the order of the tests, and no orphan gap, or it has just one gap, under the
name of no test. All that a test without requirements gives is its coverage gap. A pair gives a
mismatch gap exactly when it is related and the finding is graver than the test declares. And
whatever the additional strategies are, a detector reports each finding and each test without
requirements. -/
theorem every_finding_and_bare_test_reported (catalog : Catalog) (request : Request) (input : Input)
    (hinput : request.input = .ok input) :
    let finder : Finder := { catalog, name := Strategy.defaultKey }
    let origins := finder.origins input
    ((Strategy.default catalog).analyze request = .found (.ofGaps (origins.map finder.gapAt)) ∧
      origins.Nodup) ∧
    (∀ v ∈ input.vulnerabilities.zipIdx,
      origins.filter (Origin.maps v) =
        (input.intents.zipIdx.filter fun intent => finder.related intent.1 v.1).map
          (Origin.mapping · v) ∧
      ((origins.filter (Origin.maps v) ≠ [] ∧ origins.count (.orphan v) = 0) ∨
        (origins.filter (Origin.maps v) = [] ∧ origins.count (.orphan v) = 1)) ∧
      (finder.gapAt (.orphan v)).testName = unknownTest) ∧
    (∀ intent ∈ input.intents.zipIdx, intent.1.securityRequirements = [] →
      origins.filter (fun origin => origin.intent? = some intent) = [.coverage intent] ∧
      (finder.gapAt (.coverage intent)).risk = .medium) ∧
    (∀ intent ∈ input.intents.zipIdx, ∀ v ∈ input.vulnerabilities.zipIdx,
      Origin.mismatch intent v ∈ origins ↔
        finder.related intent.1 v.1 = true ∧
          intent.1.risk.rank < (Severity.risk v.1.severity).rank) ∧
    ∀ detector : Detector, detector.primary = Strategy.default catalog →
      ∃ result, (detector.analyze request).value = .ok result ∧
        (∀ v ∈ input.vulnerabilities, ∃ gap ∈ result.gaps,
          gap.actualImplementation = describe v) ∧
        ∀ intent ∈ input.intents, intent.securityRequirements = [] →
          ∃ gap ∈ result.gaps, gap.testName = intent.testName ∧
            gap.intention = intentionText intent ∧
            gap.actualImplementation = noRequirements := by
  intro finder origins
  refine ⟨⟨?_, finder.nodup_origins input⟩, ?_, ?_, ?_, ?_⟩
  · rw [← finder.defaultGaps_eq_map_origins]
    exact Strategy.analyze_ofFinder hinput
  · intro v hv
    exact ⟨Finder.filter_maps_origins hv, Finder.mapped_or_orphan hv, rfl⟩
  · intro intent hintent hnone
    exact ⟨Finder.filter_intent_origins hintent hnone, rfl⟩
  · intro intent hintent v hv
    rw [Finder.mem_origins_iff]
    exact ⟨fun hgives => hgives.2.2, fun hpair => ⟨hintent, hv, hpair⟩⟩
  · intro detector hprimary
    refine ⟨_, Detector.value_analyze_of_default hinput hprimary, ?_, ?_⟩
    · intro v hv
      obtain ⟨gap, hgap, htext⟩ := finder.exists_gap_of_finding hv
      obtain ⟨kept, hkept, _, hkey⟩ := exists_mem_deduplicate_append hgap _
      exact ⟨kept, hkept, (congrArg (·.2.2) hkey).trans htext⟩
    · intro intent hintent hnone
      have hgap : finder.coverageGap intent ∈ finder.defaultGaps input :=
        Finder.mem_defaultGaps.mpr (.inr (.inl
          (Finder.mem_coverageGaps.mpr ⟨intent, hintent, hnone, rfl⟩)))
      obtain ⟨kept, hkept, _, hkey⟩ := exists_mem_deduplicate_append hgap _
      exact ⟨kept, hkept, congrArg (·.1) hkey, congrArg (·.2.1) hkey, congrArg (·.2.2) hkey⟩

def queryTest : TestIntent where
  testName := "query"
  securityRequirements := ["sql"]

def bareTest : TestIntent where
  testName := "smoke"

/-- A test that is related to one of two findings, and a test without requirements. -/
def queryAndBare : Request where
  intent? := some { testIntents? := some [queryTest, bareTest] }
  taint? := some { vulnerabilities? := some [queryFinding, scriptFinding] }

/-- A strategy that breaks off and one that finds a gap of its own, behind the default strategy. -/
def defaultWithOthers : Detector :=
  { Detector.brokenAndFinder with primary := Strategy.default twoCategories }

theorem queryAndBare_reported :
    (Finder.origins ⟨twoCategories, Strategy.defaultKey⟩
        ⟨[queryTest, bareTest], [queryFinding, scriptFinding]⟩).filter
      (Origin.maps (queryFinding, 0)) = [.mapping (queryTest, 0) (queryFinding, 0)] ∧
    (Finder.origins ⟨twoCategories, Strategy.defaultKey⟩
        ⟨[queryTest, bareTest], [queryFinding, scriptFinding]⟩).count
      (.orphan (scriptFinding, 1)) = 1 ∧
    ∃ result, (defaultWithOthers.analyze queryAndBare).value = .ok result ∧
      (∃ gap ∈ result.gaps, gap.actualImplementation = describe scriptFinding) ∧
      ∃ gap ∈ result.gaps, gap.testName = bareTest.testName ∧
        gap.intention = intentionText bareTest ∧ gap.actualImplementation = noRequirements := by
  obtain ⟨_, hfindings, _, _, hdetectors⟩ := every_finding_and_bare_test_reported twoCategories
    queryAndBare ⟨[queryTest, bareTest], [queryFinding, scriptFinding]⟩ rfl
  obtain ⟨hquery, _⟩ := hfindings (queryFinding, 0) (by simp)
  obtain ⟨hscript, hcases, _⟩ := hfindings (scriptFinding, 1) (by simp)
  obtain ⟨result, hresult, hreported, hbare⟩ := hdetectors defaultWithOthers rfl
  have hunmapped : ([queryTest, bareTest].zipIdx.filter fun intent =>
      Finder.related ⟨twoCategories, Strategy.defaultKey⟩ intent.1 scriptFinding) = [] := by decide
  have hmapped : ([queryTest, bareTest].zipIdx.filter fun intent =>
      Finder.related ⟨twoCategories, Strategy.defaultKey⟩ intent.1 queryFinding) =
        [(queryTest, 0)] := by
    decide
  rw [hunmapped] at hscript
  rw [hmapped] at hquery
  refine ⟨hquery, ?_, result, hresult, hreported scriptFinding (by simp),
    hbare bareTest (by simp) rfl⟩
  exact (hcases.resolve_left fun hcovered => hcovered.1 hscript).2

end Shortfall.Gap

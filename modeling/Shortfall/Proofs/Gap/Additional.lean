import Shortfall.Proofs.Gap.Deduplication
import Shortfall.Proofs.Gap.Merge

/-!
# Additional strategies only append

A strategy that is added to a detector comes last in the merge, behind everything that was found
without it. It can neither make the analysis fail nor displace, reorder or regrade a gap, since of
gaps with one key the first is kept. A strategy that fails contributes nothing at all, so it may
stand anywhere in the order of registration without a trace in the result.
-/

namespace Shortfall.Gap

/-- The second list is the first one with elements for which `P` holds put in at any places. -/
inductive WithInserted {α : Type} (P : α → Prop) : List α → List α → Prop where
  | nil : WithInserted P [] []
  | keep {xs ys : List α} (x : α) (h : WithInserted P xs ys) : WithInserted P (x :: xs) (x :: ys)
  | insert {xs ys : List α} {x : α} (hx : P x) (h : WithInserted P xs ys) :
      WithInserted P xs (x :: ys)

private theorem WithInserted.flatMap_eq {α β : Type} {P : α → Prop} {f : α → List β}
    {xs ys : List α} (h : WithInserted P xs ys) (hf : ∀ x, P x → f x = []) :
    ys.flatMap f = xs.flatMap f := by
  induction h with
  | nil => rfl
  | keep x _ ih => rw [List.flatMap_cons, List.flatMap_cons, ih]
  | insert hx _ ih => rw [List.flatMap_cons, hf _ hx, List.nil_append, ih]

namespace Detector

variable {detector other : Detector} {request : Request}

private theorem primary_addStrategy (detector : Detector) (strategy? : Option Strategy) :
    (detector.addStrategy strategy?).primary = detector.primary := by
  cases strategy? <;> rfl

private theorem additional_addStrategy (detector : Detector) (strategy? : Option Strategy) :
    (detector.addStrategy strategy?).additional = detector.additional ++ strategy?.toList := by
  cases strategy? with
  | none => exact (List.append_nil _).symm
  | some strategy => rfl

/-- Whether an analysis fails is a matter of its primary strategy. -/
theorem fails_iff_of_primary_eq (h : other.primary = detector.primary) :
    other.Fails request ↔ detector.Fails request := by
  rw [Fails, Fails, h]

theorem merged_addStrategy_prefix (detector : Detector) (strategy? : Option Strategy)
    (request : Request) :
    (detector.merged request).gaps <+: ((detector.addStrategy strategy?).merged request).gaps := by
  simp only [merged, primary_addStrategy, additional_addStrategy, List.flatMap_append,
    ← List.append_assoc]
  exact deduplicate_prefix_append _ _

/-- Strategies that fail leave the merge as it is. -/
theorem merged_eq_of_inserted (hprimary : other.primary = detector.primary)
    (h : WithInserted (·.Fails request) detector.additional other.additional) :
    other.merged request = detector.merged request := by
  have hcontributions := h.flatMap_eq (f := (·.contribution request))
    fun _ hfails => Strategy.contribution_of_fails hfails
  rw [merged, merged, hprimary, hcontributions]

/-- **Additional strategies only append.** When an analysis succeeds, it succeeds with one more
strategy, whatever that strategy does, and the gaps found without it come first and unchanged. And
strategies that decline, fail or break off, registered at any places between the others, do not
change the outcome of an analysis. -/
theorem additional_only_append (detector : Detector) (request : Request) :
    (∀ result, (detector.analyze request).value = .ok result →
      ∀ strategy? : Option Strategy, ∃ longer,
        ((detector.addStrategy strategy?).analyze request).value = .ok longer ∧
          result.gaps <+: longer.gaps) ∧
    ∀ other : Detector, other.primary = detector.primary →
      WithInserted (fun strategy => strategy.accepts request = false ∨
        ∃ failure, strategy.analyze request = .failed failure)
        detector.additional other.additional →
      (other.analyze request).value = (detector.analyze request).value := by
  constructor
  · intro result hresult strategy?
    have hsucceeds : ¬detector.Fails request := by
      rw [← exists_error_analyze_iff, hresult]
      rintro ⟨error, herror⟩
      cases herror
    rw [value_analyze_of_succeeds hsucceeds] at hresult
    cases hresult
    have hsucceeds' : ¬(detector.addStrategy strategy?).Fails request :=
      mt (fails_iff_of_primary_eq (primary_addStrategy detector strategy?)).mp hsucceeds
    exact ⟨_, value_analyze_of_succeeds hsucceeds',
      merged_addStrategy_prefix detector strategy? request⟩
  · intro other hprimary hinserted
    by_cases hfails : detector.Fails request
    · obtain ⟨outcome, _, houtcome⟩ := analyzeWith_of_fails hfails
      rw [analyze, analyze, analyzeInOrder, analyzeInOrder, houtcome other hprimary,
        houtcome detector rfl]
    · have hfails' := mt (fails_iff_of_primary_eq hprimary).mp hfails
      rw [value_analyze_of_succeeds hfails, value_analyze_of_succeeds hfails',
        merged_eq_of_inserted hprimary hinserted]

/-- The detector without the strategy that breaks off. -/
def finderAlone : Detector :=
  { brokenAndFinder with additional := brokenAndFinder.additional.drop 1 }

/-- A strategy that grades a gap higher which others find too, and finds one of its own. -/
def louder : Strategy :=
  endingWith "louder"
    (.found (.ofGaps [{ testName := "logout", risk := .critical }, { testName := "reset" }]))

theorem finderAlone_only_appended :
    (∃ longer, ((finderAlone.addStrategy (some louder)).analyze emptyReports).value = .ok longer ∧
      (finderAlone.merged emptyReports).gaps <+: longer.gaps) ∧
    (brokenAndFinder.analyze emptyReports).value = (finderAlone.analyze emptyReports).value := by
  obtain ⟨happend, hinsert⟩ := additional_only_append finderAlone emptyReports
  refine ⟨happend _ rfl (some louder), hinsert brokenAndFinder rfl ?_⟩
  exact .insert (.inr ⟨_, rfl⟩) (.keep _ .nil)

end Detector

end Shortfall.Gap

import Shortfall.Gap.Detector
import Shortfall.Proofs.Collections

/-!
# What the configuration of a detector says

A detector holds its strategies and, beside them, a configuration that names them. Four calls change
the one or the other: a strategy is made the primary one by its key or as it is, a strategy is added
behind the others, a builder is registered. The configuration keeps naming the strategies through
all of them (`Coherent`), and the registry only grows (`Registry.Extends`).

A name leads back to its strategy when it is the key that the strategy was built from, and what a
registry gives for a key stays what it gives for it. A detector all of whose strategies were built
from keys can therefore be made again from its configuration (`ofConfig_config`).

## Main results

* `Coherent.after`, `coherent_afterAll`: one call, and any calls, keep the configuration true.
* `extends_after`, `extends_afterAll`: the registry under one call, and under any calls.
* `AllBuilt.after`, `AllBuilt.afterAll`: the strategies of a detector come from keys.
-/

namespace Shortfall.Gap

/-! ## Registries -/

namespace Registry

variable {registry next : Registry} {key : Text} {builder? : Option Builder}

/-- What the one registry has under a key, the other has too. -/
def Extends (later earlier : Registry) : Prop :=
  ∀ key builder, earlier.builders.get? key = some builder → later.builders.get? key = some builder

theorem Extends.refl (registry : Registry) : registry.Extends registry := fun _ _ h => h

theorem Extends.trans {first second third : Registry} (h : third.Extends second)
    (h' : second.Extends first) : third.Extends first :=
  fun key builder hget => h key builder (h' key builder hget)

/-- A registry that has nothing under the keys that cannot be registered. -/
structure Admissible (registry : Registry) : Prop where
  default : registry.builders.get? Strategy.defaultKey = none
  empty : registry.builders.get? [] = none

/-- Builders that give strategies with their own key as the name. -/
def NamesByKey (registry : Registry) : Prop :=
  ∀ key builder, registry.builders.get? key = some builder →
    ∀ catalog, (builder catalog).name = key

/-- A builder is registered under a key that is neither empty nor reserved nor taken. -/
theorem register_eq_ok (h : registry.register key builder? = .ok next) :
    ∃ builder, builder? = some builder ∧ key ≠ [] ∧ key ≠ Strategy.defaultKey ∧
      registry.builders.get? key = none ∧ next = ⟨registry.builders.insert key builder⟩ := by
  cases builder? with
  | none => cases h
  | some builder =>
      rw [register] at h
      split at h
      · cases h
      · next hempty =>
          split at h
          · cases h
          · next hdefault =>
              split at h
              · cases h
              · next hfree =>
                  cases h
                  refine ⟨builder, rfl, ?_, hdefault, ?_, rfl⟩
                  · simpa using hempty
                  · simpa [NameMap.contains] using hfree

private theorem extends_register (h : registry.register key builder? = .ok next) :
    next.Extends registry := by
  obtain ⟨builder, _, _, _, hfree, rfl⟩ := register_eq_ok h
  intro other known hknown
  have hne : other ≠ key := by
    rintro rfl
    rw [hfree] at hknown
    cases hknown
  show (registry.builders.insert key builder).get? other = some known
  rw [NameMap.get?_insert_ne _ hne, hknown]

theorem Admissible.register (hregistry : registry.Admissible)
    (h : registry.register key builder? = .ok next) : next.Admissible := by
  obtain ⟨builder, _, hempty, hdefault, _, rfl⟩ := register_eq_ok h
  constructor
  · show (registry.builders.insert key builder).get? _ = none
    rw [NameMap.get?_insert_ne _ hdefault.symm, hregistry.default]
  · show (registry.builders.insert key builder).get? _ = none
    rw [NameMap.get?_insert_ne _ hempty.symm, hregistry.empty]

theorem NamesByKey.register (hregistry : registry.NamesByKey)
    (hbuilder : ∀ builder, builder? = some builder → ∀ catalog, (builder catalog).name = key)
    (h : registry.register key builder? = .ok next) : next.NamesByKey := by
  obtain ⟨builder, hsome, _, _, _, rfl⟩ := register_eq_ok h
  intro other found hfound
  have hget : (registry.builders.insert key builder).get? other = some found := hfound
  rw [NameMap.get?_insert] at hget
  split at hget
  · next hother =>
      cases hget
      rw [hother]
      exact hbuilder builder hsome
  · exact hregistry other found hget

/-- The registries there are: the standard one, with builders registered. -/
inductive Grown : Registry → Prop where
  | standard : Grown .standard
  | register {registry next : Registry} {key : Text} {builder? : Option Builder}
      (hgrown : Grown registry) (h : registry.register key builder? = .ok next) : Grown next

private theorem Grown.admissible (h : registry.Grown) : registry.Admissible := by
  induction h with
  | standard => exact ⟨by decide, by decide⟩
  | register _ hregister ih => exact ih.register hregister

private theorem namesByKey_standard : NamesByKey .standard := by
  intro key builder hget catalog
  rw [← NameMap.mem_entries_iff] at hget
  have hentries : standard.builders.entries = [
      (Strategy.coverageBasedKey, Strategy.coverageBased),
      (Strategy.riskBasedKey, Strategy.riskBased),
      (Strategy.semanticKey, Strategy.semantic)] := rfl
  rw [hentries] at hget
  simp only [List.mem_cons, List.not_mem_nil, or_false, Prod.mk.injEq] at hget
  rcases hget with ⟨rfl, rfl⟩ | ⟨rfl, rfl⟩ | ⟨rfl, rfl⟩ <;> rfl

end Registry

/-! ## Calls -/

/-- A call that changes a detector or its registry. -/
inductive Call where
  /-- Makes the strategy of a key the primary one. -/
  | use (key : Text)
  | set (strategy? : Option Strategy)
  | add (strategy? : Option Strategy)
  | register (key : Text) (builder? : Option Builder)

/-- Why a call is refused. -/
inductive CallError where
  | unresolved (error : ResolveError)
  | unregistered (error : RegisterError)

/-- The strategy that a call hands to the detector. -/
def Call.strategy? : Call → Option Strategy
  | set strategy? | add strategy? => strategy?
  | use _ | register _ _ => none

namespace Detector

def perform (detector : Detector) : Call → Except CallError Detector
  | .use key => (detector.useStrategy key).mapError .unresolved
  | .set strategy? => .ok (detector.setStrategy strategy?)
  | .add strategy? => .ok (detector.addStrategy strategy?)
  | .register key builder? => (detector.register key builder?).mapError .unregistered

/-- The detector behind a call, whether or not it was refused. -/
def after (detector : Detector) (call : Call) : Detector :=
  match detector.perform call with
  | .ok next => next
  | .error _ => detector

def afterAll (detector : Detector) (calls : List Call) : Detector := calls.foldl after detector

variable {detector next : Detector} {call : Call}

/-- **What a call can do**: it is refused and changes nothing, it replaces the primary strategy by a
resolved or a given one, it adds a strategy, it does nothing for want of one, or it registers a
builder. -/
theorem after_cases (detector : Detector) (call : Call) :
    detector.after call = detector ∨
    (∃ strategy, detector.after call = detector.setStrategy (some strategy) ∧
      (call.strategy? = some strategy ∨ ∃ key, detector.resolve key = .ok strategy)) ∨
    (∃ strategy, detector.after call = detector.addStrategy (some strategy) ∧
      call.strategy? = some strategy) ∨
    ∃ key builder? registry, call = .register key builder? ∧
      detector.registry.register key builder? = .ok registry ∧
      detector.after call = { detector with registry } := by
  cases call with
  | use key =>
      simp only [after, perform, useStrategy]
      cases hresolve : detector.resolve key with
      | error error => exact .inl rfl
      | ok strategy => exact .inr (.inl ⟨strategy, rfl, .inr ⟨key, hresolve⟩⟩)
  | set strategy? =>
      cases strategy? with
      | none => exact .inl rfl
      | some strategy => exact .inr (.inl ⟨strategy, rfl, .inl rfl⟩)
  | add strategy? =>
      cases strategy? with
      | none => exact .inl rfl
      | some strategy => exact .inr (.inr (.inl ⟨strategy, rfl, rfl⟩))
  | register key builder? =>
      simp only [after, perform, register]
      cases hregister : detector.registry.register key builder? with
      | error error => exact .inl rfl
      | ok registry => exact .inr (.inr (.inr ⟨key, builder?, registry, rfl, hregister, rfl⟩))

theorem afterAll_append (detector : Detector) (front back : List Call) :
    detector.afterAll (front ++ back) = (detector.afterAll front).afterAll back :=
  List.foldl_append

private theorem catalog_after (detector : Detector) (call : Call) :
    (detector.after call).catalog = detector.catalog := by
  rcases after_cases detector call with h | ⟨_, h, _⟩ | ⟨_, h, _⟩ | ⟨_, _, _, _, _, h⟩ <;>
    rw [h] <;> rfl

private theorem catalog_afterAll (detector : Detector) (calls : List Call) :
    (detector.afterAll calls).catalog = detector.catalog := by
  induction calls generalizing detector with
  | nil => rfl
  | cons call calls ih => exact (ih _).trans (catalog_after detector call)

/-! ## The registry under calls -/

theorem extends_after (detector : Detector) (call : Call) :
    (detector.after call).registry.Extends detector.registry := by
  rcases after_cases detector call with
    h | ⟨_, h, _⟩ | ⟨_, h, _⟩ | ⟨_, _, registry, _, hregister, h⟩
  · rw [h]
    exact .refl _
  · rw [h]
    exact .refl _
  · rw [h]
    exact .refl _
  · rw [h]
    exact Registry.extends_register hregister

theorem extends_afterAll (detector : Detector) (calls : List Call) :
    (detector.afterAll calls).registry.Extends detector.registry := by
  induction calls generalizing detector with
  | nil => exact .refl _
  | cons call calls ih => exact (ih _).trans (extends_after detector call)

private theorem namesByKey_afterAll (h : detector.registry.NamesByKey) {calls : List Call}
    (hcalls : ∀ key builder, Call.register key (some builder) ∈ calls →
      ∀ catalog, (builder catalog).name = key) :
    (detector.afterAll calls).registry.NamesByKey := by
  induction calls generalizing detector with
  | nil => exact h
  | cons call calls ih =>
      refine ih ?_ fun key builder hmem => hcalls key builder (List.mem_cons_of_mem _ hmem)
      rcases after_cases detector call with h' | ⟨_, h', _⟩ | ⟨_, h', _⟩ |
        ⟨key, builder?, registry, hcall, hregister, h'⟩
      · rwa [h']
      · rw [h']
        exact h
      · rw [h']
        exact h
      · rw [h']
        refine h.register ?_ hregister
        rintro builder rfl
        exact hcalls key builder (hcall ▸ List.mem_cons_self)

/-! ## The configuration under calls -/

/-- A detector whose configuration names its strategies, in order, and that can run some. -/
structure Coherent (detector : Detector) : Prop where
  primary : detector.config.strategy = detector.primary.name
  additional : detector.config.additional = detector.additional.map (·.name)
  limit : 0 < detector.config.maxConcurrency
  registry : detector.registry.Admissible

theorem Coherent.setStrategy (h : detector.Coherent) (strategy : Strategy) :
    (detector.setStrategy (some strategy)).Coherent :=
  { h with primary := rfl }

theorem Coherent.addStrategy (h : detector.Coherent) (strategy : Strategy) :
    (detector.addStrategy (some strategy)).Coherent :=
  { h with
    additional := by
      show detector.config.additional ++ [strategy.name] = (detector.additional ++ [strategy]).map _
      rw [h.additional, List.map_append]
      rfl }

/-- Every call keeps the configuration true, also one that is refused. -/
theorem Coherent.after (h : detector.Coherent) (call : Call) : (detector.after call).Coherent := by
  rcases after_cases detector call with h' | ⟨strategy, h', _⟩ | ⟨strategy, h', _⟩ |
    ⟨_, _, registry, _, hregister, h'⟩
  · rwa [h']
  · rw [h']
    exact h.setStrategy strategy
  · rw [h']
    exact h.addStrategy strategy
  · rw [h']
    exact { h with registry := h.registry.register hregister }

theorem coherent_afterAll (h : detector.Coherent) (calls : List Call) :
    (detector.afterAll calls).Coherent := by
  induction calls generalizing detector with
  | nil => exact h
  | cons call calls ih => exact ih (h.after call)

/-! ## Strategies from keys -/

variable {catalog : Catalog} {registry later : Registry} {key : Text} {strategy : Strategy}

theorem resolveIn_of_extends (h : later.Extends registry)
    (hresolve : resolveIn catalog registry key = .ok strategy) :
    resolveIn catalog later key = .ok strategy := by
  rw [resolveIn] at hresolve ⊢
  split at hresolve
  · next hdefault => rw [if_pos hdefault, hresolve]
  · next hdefault =>
      rw [if_neg hdefault]
      rw [Registry.resolve, if_neg hdefault] at hresolve ⊢
      cases hget : registry.builders.get? key with
      | none =>
          rw [hget] at hresolve
          cases hresolve
      | some builder =>
          rw [hget] at hresolve
          rw [h key builder hget]
          exact hresolve

private theorem name_of_resolveIn (hnames : registry.NamesByKey)
    (hresolve : resolveIn catalog registry key = .ok strategy) : strategy.name = key := by
  rw [resolveIn] at hresolve
  split at hresolve
  · next hdefault =>
      cases hresolve
      exact hdefault.symm
  · next hdefault =>
      rw [Registry.resolve, if_neg hdefault] at hresolve
      cases hget : registry.builders.get? key with
      | none =>
          rw [hget] at hresolve
          cases hresolve
      | some builder =>
          rw [hget] at hresolve
          cases hresolve
          exact hnames key builder hget catalog

private theorem ne_nil_of_resolveIn (hregistry : registry.Admissible)
    (hresolve : resolveIn catalog registry key = .ok strategy) : key ≠ [] := by
  rintro rfl
  rw [resolveIn, if_neg (by decide), Registry.resolve, if_neg (by decide), hregistry.empty]
    at hresolve
  cases hresolve

/-- Strategies that a registry gives for some keys. -/
def Built (catalog : Catalog) (registry : Registry) (strategy : Strategy) : Prop :=
  ∃ key, resolveIn catalog registry key = .ok strategy

/-- A detector all of whose strategies a registry gives for some keys. -/
structure AllBuilt (detector : Detector) (registry : Registry) : Prop where
  primary : Built detector.catalog registry detector.primary
  additional : ∀ strategy ∈ detector.additional, Built detector.catalog registry strategy

/-- A call keeps strategies that come from keys, if what it hands over does too. The registry to
look the keys up in may be a later one. -/
theorem AllBuilt.after (h : detector.AllBuilt later) (hlater : later.Extends detector.registry)
    (hcall : ∀ strategy, call.strategy? = some strategy →
      Built detector.catalog later strategy) :
    (detector.after call).AllBuilt later := by
  rcases after_cases detector call with h' | ⟨strategy, h', hset⟩ | ⟨strategy, h', hadded⟩ |
    ⟨_, _, registry, _, _, h'⟩
  · rwa [h']
  · rw [h']
    refine ⟨?_, h.additional⟩
    rcases hset with hgiven | ⟨key, hresolve⟩
    · exact hcall strategy hgiven
    · exact ⟨key, resolveIn_of_extends hlater hresolve⟩
  · rw [h']
    refine ⟨h.primary, ?_⟩
    intro other hother
    rcases List.mem_append.mp hother with hother | hother
    · exact h.additional other hother
    · rw [List.mem_singleton.mp hother]
      exact hcall strategy hadded
  · rw [h']
    exact ⟨h.primary, h.additional⟩

theorem AllBuilt.afterAll {calls : List Call} (h : detector.AllBuilt later)
    (hlater : later.Extends (detector.afterAll calls).registry)
    (hcalls : ∀ call ∈ calls, ∀ strategy, call.strategy? = some strategy →
      Built detector.catalog later strategy) :
    (detector.afterAll calls).AllBuilt later := by
  induction calls generalizing detector with
  | nil => exact h
  | cons call calls ih =>
      have hnow : later.Extends detector.registry :=
        hlater.trans (extends_afterAll detector (call :: calls))
      refine ih (h.after hnow (hcalls call List.mem_cons_self)) hlater ?_
      rw [catalog_after]
      exact fun other hother => hcalls other (List.mem_cons_of_mem _ hother)

/-! ## Making detectors -/

/-- A detector with further strategies behind the others. -/
def withAdded (detector : Detector) (strategies : List Strategy) : Detector :=
  { detector with
    additional := detector.additional ++ strategies
    config := { detector.config with
      additional := detector.config.additional ++ strategies.map (·.name) } }

private theorem withAdded_cons (detector : Detector) (strategy : Strategy) (rest : List Strategy) :
    detector.withAdded (strategy :: rest) =
      (detector.addStrategy (some strategy)).withAdded rest := by
  simp [withAdded, addStrategy]

/-- Strategies are added by their keys when each key gives one. -/
theorem addAll_eq_ok_iff {keys : List Text} :
    detector.addAll keys = .ok next ↔ ∃ strategies : List Strategy,
      keys.map detector.resolve = strategies.map .ok ∧ next = detector.withAdded strategies := by
  induction keys generalizing detector with
  | nil =>
      have hnone : detector.withAdded [] = detector := by simp [withAdded]
      simp [addAll, List.map_eq_nil_iff, hnone, eq_comm]
  | cons key keys ih =>
      rw [addAll]
      cases hresolve : detector.resolve key with
      | error error =>
          simp only [reduceCtorEq, false_iff, not_exists, not_and]
          intro strategies hall
          cases strategies <;> simp [hresolve] at hall
      | ok strategy =>
          -- Adding a strategy changes nothing that keys are looked up in.
          have hsame : (detector.addStrategy (some strategy)).resolve = detector.resolve := rfl
          simp only [ih, hsame, List.map_cons, hresolve]
          constructor
          · rintro ⟨strategies, hall, rfl⟩
            exact ⟨strategy :: strategies, by rw [hall, List.map_cons], (withAdded_cons ..).symm⟩
          · rintro ⟨strategies, hall, rfl⟩
            cases strategies with
            | nil => cases hall
            | cons first strategies =>
                obtain ⟨hfirst, hrest⟩ := List.cons.inj hall
                cases hfirst
                exact ⟨strategies, hrest, withAdded_cons ..⟩

/-- A new detector names its strategies, and they come from keys. -/
theorem coherent_ofConfig (hregistry : registry.Admissible) (hnames : registry.NamesByKey)
    {config : Config} (h : ofConfig config catalog registry = .ok detector) :
    detector.Coherent ∧ detector.AllBuilt registry ∧ detector.catalog = catalog ∧
      detector.registry = registry := by
  rw [ofConfig] at h
  split at h
  · cases h
  · next primary hprimary =>
      obtain ⟨strategies, hall, rfl⟩ := addAll_eq_ok_iff.mp h
      have hlimit : 0 < if config.maxConcurrency ≤ 0 then (4 : Int) else config.maxConcurrency := by
        split <;> omega
      refine ⟨⟨(name_of_resolveIn hnames hprimary).symm, rfl, hlimit, hregistry⟩,
        ⟨⟨_, hprimary⟩, ?_⟩, rfl, rfl⟩
      intro strategy hstrategy
      obtain ⟨key, _, hresolve⟩ := List.mem_map.mp (hall ▸ List.mem_map_of_mem hstrategy)
      exact ⟨key, hresolve⟩

/-- **A detector can be made again from its configuration**, if its strategies come from keys that
they are named by. -/
theorem ofConfig_config (hcoherent : detector.Coherent)
    (hbuilt : detector.AllBuilt detector.registry) (hnames : detector.registry.NamesByKey) :
    ofConfig detector.config detector.catalog detector.registry = .ok detector := by
  have hresolve : ∀ strategy, Built detector.catalog detector.registry strategy →
      resolveIn detector.catalog detector.registry strategy.name = .ok strategy := by
    rintro strategy ⟨key, hkey⟩
    rwa [name_of_resolveIn hnames hkey]
  have hprimary := hresolve _ hbuilt.primary
  have hsome : detector.primary.name.isEmpty = false := by
    simpa using ne_nil_of_resolveIn hcoherent.registry hprimary
  have hlimit : ¬detector.config.maxConcurrency ≤ 0 := by
    have := hcoherent.limit
    omega
  simp only [ofConfig, hcoherent.primary, hsome, Bool.false_eq_true, if_false, hprimary, hlimit,
    addAll_eq_ok_iff]
  refine ⟨detector.additional, ?_, ?_⟩
  · rw [hcoherent.additional, List.map_map]
    exact List.map_congr_left fun strategy hstrategy =>
      hresolve strategy (hbuilt.additional strategy hstrategy)
  · simp only [withAdded, List.nil_append, ← hcoherent.primary, ← hcoherent.additional]

/-- **The configuration stays true.** Take a registry as it can come about, with builders that name
strategies by their keys, a detector made over it, and any calls. The configuration then names the
primary strategy and the additional ones in order, the limit is positive, and nothing is registered
under the reserved key. What was registered before some of the calls is still there after them, and
a call that is refused leaves detector and registry as they were. If the builders registered on the
way name strategies by their keys too, and the strategies handed over were built from keys, the
configuration makes the very same detector, with the same outcome for every request. -/
theorem configuration_stays_faithful {registry : Registry} (hgrown : registry.Grown)
    (hnames : registry.NamesByKey) {config : Config} {catalog : Catalog} {detector : Detector}
    (hnew : ofConfig config catalog registry = .ok detector) (calls : List Call) :
    (detector.afterAll calls).Coherent ∧
    (detector.afterAll calls).registry.Extends registry ∧
    (∀ front back, calls = front ++ back →
      (detector.afterAll calls).registry.Extends (detector.afterAll front).registry) ∧
    (∀ front call back error, calls = front ++ call :: back →
      (detector.afterAll front).perform call = .error error →
        detector.afterAll (front ++ [call]) = detector.afterAll front) ∧
    ((∀ key builder, Call.register key (some builder) ∈ calls →
        ∀ catalog, (builder catalog).name = key) →
      (∀ call ∈ calls, ∀ strategy, call.strategy? = some strategy →
        ∃ key, (detector.afterAll calls).resolve key = .ok strategy) →
      ofConfig (detector.afterAll calls).config catalog (detector.afterAll calls).registry =
        .ok (detector.afterAll calls)) := by
  obtain ⟨hcoherent, hbuilt, rfl, rfl⟩ := coherent_ofConfig hgrown.admissible hnames hnew
  refine ⟨coherent_afterAll hcoherent calls, extends_afterAll detector calls, ?_, ?_, ?_⟩
  · rintro front back rfl
    rw [afterAll_append]
    exact extends_afterAll _ back
  · rintro front call back error rfl hrefused
    rw [afterAll_append]
    show (detector.afterAll front).after call = _
    rw [after, hrefused]
  · intro hbuilders hgiven
    have hcatalog := catalog_afterAll detector calls
    have hlast : detector.AllBuilt (detector.afterAll calls).registry := by
      have hlater := extends_afterAll detector calls
      refine ⟨hbuilt.primary.imp fun _ => resolveIn_of_extends hlater, fun strategy hstrategy => ?_⟩
      exact (hbuilt.additional strategy hstrategy).imp fun _ => resolveIn_of_extends hlater
    have hstrategies := hlast.afterAll (.refl _) fun call hcall strategy hstrategy => by
      obtain ⟨key, hkey⟩ := hgiven call hcall strategy hstrategy
      rw [resolve, hcatalog] at hkey
      exact ⟨key, hkey⟩
    have hrestored := ofConfig_config (coherent_afterAll hcoherent calls) hstrategies
      (namesByKey_afterAll hnames hbuilders)
    rwa [hcatalog] at hrestored

/-- A strategy with nothing to say. -/
def silent : Strategy where
  name := "silent"
  accepts := fun _ => true
  analyze := fun _ => .nothing

/-- Calls of every kind, two of which are refused. -/
def reshaping : List Call := [
  .use "nowhere",
  .register "silent" (some fun _ => silent),
  .use "silent",
  .set none,
  .add (some (Strategy.riskBased ⟨[]⟩)),
  .register Strategy.defaultKey (some Strategy.default)]

theorem reshaping_stays_faithful :
    ∃ detector, ofConfig { additional := ["semantic"] } ⟨[]⟩ .standard = .ok detector ∧
      (detector.afterAll reshaping).config.strategy = "silent" ∧
      (detector.afterAll reshaping).config.additional = ["semantic", "risk-based"] ∧
      ofConfig (detector.afterAll reshaping).config ⟨[]⟩ (detector.afterAll reshaping).registry =
        .ok (detector.afterAll reshaping) := by
  obtain ⟨detector, hnew⟩ : ∃ detector,
      ofConfig { additional := ["semantic"] } ⟨[]⟩ .standard = .ok detector := ⟨_, rfl⟩
  obtain ⟨_, _, _, _, hrestore⟩ := configuration_stays_faithful .standard
    Registry.namesByKey_standard hnew reshaping
  cases hnew
  have hbuilders : ∀ key builder, Call.register key (some builder) ∈ reshaping →
      ∀ catalog, (builder catalog).name = key := by
    intro key builder hmem catalog
    simp only [reshaping, List.mem_cons, reduceCtorEq, false_or, List.not_mem_nil, or_false,
      Call.register.injEq, Option.some.injEq] at hmem
    rcases hmem with ⟨rfl, rfl⟩ | ⟨rfl, rfl⟩ <;> rfl
  refine ⟨_, rfl, rfl, rfl, hrestore hbuilders fun call hcall strategy hstrategy => ?_⟩
  simp only [reshaping, List.mem_cons, List.not_mem_nil, or_false] at hcall
  rcases hcall with rfl | rfl | rfl | rfl | rfl | rfl
  all_goals cases hstrategy
  exact ⟨"risk-based", rfl⟩

end Detector

end Shortfall.Gap

import Shortfall.Proofs.Taint.Step

/-!
# The states that can arise

A state has two maps and a log, and each operation updates them by rules of its own: a write may or
may not bring a provenance, a sink is attached to variables that have a level already, an advisory
is noted without any write. `WellFormed` is what couples the three. It is a matter of `write` and
`advise` alone, because a statement is nothing but some of these one after the other: it notes at
most one advisory, writes back each variable that reaches its sink, and writes its target.

## Main results

* `WellFormed.write`, `WellFormed.transfer`: both ways in which a state changes keep the coupling.
* `WellFormed.step`, `WellFormed.run`: hence so do a statement and a program.
* `Reachable.wellFormed`: hence it holds in every state that can arise.
-/

namespace Shortfall.Taint

/-- An advisory that agrees with a state: it is about tainted data, and names the tracked variables
that the data came from, in order. -/
structure Advisory.AgreesWith (advisory : Advisory) (σ : State) : Prop where
  level : advisory.level = .tainted
  ne_nil : advisory.variableNames ≠ []
  ascends : Ascends advisory.variableNames
  tracked : ∀ name ∈ advisory.variableNames, σ.tracks name = true

/-- An advisory goes on to agree as long as no variable is dropped. -/
theorem Advisory.AgreesWith.mono {advisory : Advisory} {σ τ : State}
    (h : advisory.AgreesWith σ) (hτ : ∀ name, σ.tracks name = true → τ.tracks name = true) :
    advisory.AgreesWith τ :=
  ⟨h.level, h.ne_nil, h.ascends, fun name hname => hτ name (h.tracked name hname)⟩

namespace State

/-- The states that a sequence of operations can lead to. Levels and provenances that are written
come from outside and may be anything. -/
inductive Reachable : State → Prop where
  | empty : Reachable .empty
  | write {σ : State} (h : Reachable σ) (name : Text) (level : Level)
      (provenance? : Option Provenance) : Reachable (σ.write name level provenance?)
  | transfer {σ : State} (h : Reachable σ) (stmt : Statement) (input : Level) :
      Reachable (σ.transfer stmt input).1
  | run {σ : State} (h : Reachable σ) (stmts : List Statement) : Reachable (σ.run stmts)
  | copy {σ : State} (h : Reachable σ) : Reachable σ.copy
  | clear {σ : State} (h : Reachable σ) : Reachable σ.clear

/-- Levels, provenances and advisories fit together. -/
structure WellFormed (σ : State) : Prop where
  clamped : σ.Clamped
  tracked : ∀ name, σ.provenances.contains name = true → σ.tracks name = true
  recorded : ∀ name, σ.level name ≠ .untainted → σ.provenances.contains name = true
  advised : ∀ advisory ∈ σ.advisories, advisory.AgreesWith σ

/-! ## Writing -/

section Write

variable {σ : State} {name other : Text} {level : Level} {provenance? : Option Provenance}

theorem tracks_write :
    (σ.write name level provenance?).tracks other = true ↔
      other = name ∨ σ.tracks other = true := by
  simp only [tracks, NameMap.contains, write, NameMap.get?_insert]
  split
  · next heq => simp [heq]
  · next hne => simp [hne]

theorem level_write :
    (σ.write name level provenance?).level other =
      if other = name then level.clamp else σ.level other := by
  simp only [State.level, write, NameMap.get?_insert]
  split <;> rfl

private theorem contains_provenances_write_of_ne (h : other ≠ name) :
    (σ.write name level provenance?).provenances.contains other =
      σ.provenances.contains other := by
  simp only [write]
  split
  · simp only [NameMap.contains, NameMap.get?_insert_ne _ h]
  · split
    · simp only [NameMap.contains, NameMap.get?_insert_ne _ h]
    · rfl

/-- A variable that is written with a level above untainted has a provenance from then on. -/
theorem contains_provenances_write_self (h : level.clamp ≠ .untainted) :
    (σ.write name level provenance?).provenances.contains name = true := by
  simp only [write]
  split
  · simp only [NameMap.contains, NameMap.get?_insert_self, Option.isSome_some]
  · split
    · simp only [NameMap.contains, NameMap.get?_insert_self, Option.isSome_some]
    · next hknown => simpa [h] using hknown

end Write

namespace WellFormed

variable {σ : State}

theorem write (h : σ.WellFormed) (name : Text) (level : Level) (provenance? : Option Provenance) :
    (σ.write name level provenance?).WellFormed where
  clamped := by
    intro other stored hget
    simp only [State.write, NameMap.get?_insert] at hget
    split at hget
    · cases hget
      exact Level.clamp_clamp level
    · exact h.clamped other stored hget
  tracked := by
    intro other hother
    rw [tracks_write]
    by_cases heq : other = name
    · exact Or.inl heq
    · rw [contains_provenances_write_of_ne heq] at hother
      exact Or.inr (h.tracked other hother)
  recorded := by
    intro other hother
    rw [level_write] at hother
    by_cases heq : other = name
    · rw [if_pos heq] at hother
      rw [heq]
      exact contains_provenances_write_self hother
    · rw [if_neg heq] at hother
      rw [contains_provenances_write_of_ne heq]
      exact h.recorded other hother
  advised := by
    intro advisory hadvisory
    exact (h.advised advisory hadvisory).mono fun other hother => tracks_write.mpr (Or.inr hother)

/-! ## Statements -/

theorem advise {advisory : Advisory} (h : σ.WellFormed) (hagrees : advisory.AgreesWith σ) :
    (σ.advise advisory).WellFormed where
  clamped := h.clamped
  tracked := h.tracked
  recorded := h.recorded
  advised := by
    intro noted hnoted
    have hσ : noted.AgreesWith σ := by
      rcases List.mem_append.mp hnoted with hold | hnew
      · exact h.advised noted hold
      · rw [List.mem_singleton.mp hnew]
        exact hagrees
    exact hσ.mono fun _ hname => hname

end WellFormed

/-- The advisory that a statement gives rise to agrees with the state it is executed in. -/
theorem agreesWith_of_advisory? {σ : State} {stmt : Statement} {advisory : Advisory}
    (h : σ.advisory? stmt = some advisory) : advisory.AgreesWith σ := by
  rw [advisory?_eq] at h
  split at h
  · next hguard =>
      cases h
      have htainted := hguard.2.2
      refine ⟨rfl, ?_, ascends_names_read σ _, fun name hname => tracks_of_mem_read hname⟩
      -- An expression that names no variable is untainted.
      intro (hnone : (σ.read stmt.expression).names = [])
      rw [level_read, hnone, List.map_nil] at htainted
      exact absurd htainted (by decide)
  · cases h

namespace WellFormed

variable {σ : State}

theorem transfer (h : σ.WellFormed) (stmt : Statement) (input : Level) :
    (σ.transfer stmt input).1.WellFormed := by
  simp only [State.transfer]
  split
  · next advisory hadvisory => exact h.advise (agreesWith_of_advisory? hadvisory)
  · exact h

theorem attachSink (h : σ.WellFormed) (sink : Sink) (names : List Text) :
    (σ.attachSink sink names).WellFormed := by
  induction names generalizing σ with
  | nil => exact h
  | cons name rest ih => exact ih (h.write name _ _)

theorem step (h : σ.WellFormed) (stmt : Statement) : (σ.step stmt).WellFormed := by
  have hadvised := h.transfer stmt .untainted
  simp only [State.step]
  split
  · split
    · exact hadvised.write _ _ _
    · exact (hadvised.attachSink _ _).write _ _ _
  · split
    · exact hadvised
    · exact hadvised.attachSink _ _

theorem run (h : σ.WellFormed) (stmts : List Statement) : (σ.run stmts).WellFormed := by
  induction stmts generalizing σ with
  | nil => exact h
  | cons stmt rest ih => exact ih (h.step stmt)

theorem empty : State.empty.WellFormed where
  clamped := by
    intro name level hget
    cases hget
  tracked := by
    intro name hname
    cases hname
  recorded := by
    intro name hname
    exact absurd rfl hname
  advised := by
    intro advisory hadvisory
    cases hadvisory

end WellFormed

/-! ## All operations -/

theorem copy_eq (σ : State) : σ.copy = σ := by
  simp only [copy, NameMap.ofList_entries]

/-- **Every state that can arise is well formed.** -/
theorem Reachable.wellFormed {σ : State} (h : σ.Reachable) : σ.WellFormed := by
  induction h with
  | empty => exact .empty
  | write _ name level provenance? ih => exact ih.write name level provenance?
  | transfer _ stmt input ih => exact ih.transfer stmt input
  | run _ stmts ih => exact ih.run stmts
  | copy _ ih =>
      rw [copy_eq]
      exact ih
  | clear _ _ => exact .empty

/-- **What holds of every state that can arise**, whatever was written to it and run in it. Each
level is one of the three. A variable with a provenance is tracked, and one whose level is above
untainted has a provenance. Each advisory is about tainted data and names the variables it came
from, which are tracked, in ascending order. -/
theorem reachable_invariant {σ : State} (h : σ.Reachable) :
    (∀ name level, σ.levels.get? name = some level →
      level = .untainted ∨ level = .possiblyTainted ∨ level = .tainted) ∧
    (∀ name, (σ.provenances.get? name).isSome = true → (σ.levels.get? name).isSome = true) ∧
    (∀ name level, σ.levels.get? name = some level → level ≠ .untainted →
      (σ.provenances.get? name).isSome = true) ∧
    ∀ advisory ∈ σ.advisories,
      advisory.level = .tainted ∧ advisory.variableNames ≠ [] ∧
        advisory.variableNames.Pairwise (· < ·) ∧
        ∀ name ∈ advisory.variableNames, (σ.levels.get? name).isSome = true := by
  have hwf := h.wellFormed
  refine ⟨fun name level hget => ?_, hwf.tracked, fun name level hget hne => ?_,
    fun advisory hadvisory => ?_⟩
  · exact Level.eq_of_clamp_eq_self (hwf.clamped name level hget)
  · rw [← level_of_get? hget] at hne
    exact hwf.recorded name hne
  · have hagrees := hwf.advised advisory hadvisory
    exact ⟨hagrees.level, hagrees.ne_nil, hagrees.ascends, hagrees.tracked⟩

/-- User input reaches a shell in a state that was used before, and an assertion on a copy of that
state accepts it. -/
def acceptedInCopy : State :=
  let used := State.empty.write "x" ⟨7⟩ none
  let sunk := (used.clear.write "x.id" ⟨-1⟩ (some { sources := ["cache"] })).run [
    { kind := .userInput, target := "x", source := "user" },
    { kind := .methodCall, method := "exec", args := ["x.name"], sink := "shell" }]
  (sunk.copy.transfer { kind := .assertion, expression := "x.name + x.id" } ⟨-3⟩).1

theorem reachable_acceptedInCopy :
    acceptedInCopy.Reachable ∧
      acceptedInCopy.advisories.flatMap (·.variableNames) = ["x", "x.id"] ∧
      ∀ advisory ∈ acceptedInCopy.advisories, advisory.level = .tainted ∧
        ∀ name ∈ advisory.variableNames, (acceptedInCopy.levels.get? name).isSome = true := by
  have hreachable : acceptedInCopy.Reachable :=
    .transfer (.copy (.run (.write (.clear (.write .empty _ _ _)) _ _ _) _)) _ _
  obtain ⟨_, _, _, hadvised⟩ := reachable_invariant hreachable
  refine ⟨hreachable, by decide +kernel, fun advisory hadvisory => ?_⟩
  obtain ⟨hlevel, _, _, htracked⟩ := hadvised advisory hadvisory
  exact ⟨hlevel, htracked⟩

end State

end Shortfall.Taint

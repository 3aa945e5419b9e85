import Shortfall.Proofs.Taint.Reachable

/-!
# Statements of a kind without a rule

A statement whose kind has no rule passes on the level that flows into it, which on its own never
loses taint. In a run, however, what flows in is always untainted, and the outcome replaces what
the target held. So such a statement forgets the level of its target, as a sanitizer would, and
leaves every other variable alone.

## Main results

* `level_step_of_unmodelled`: the levels behind one such statement.
* `level_run_of_unmodelled`: the levels behind any number of them.
-/

namespace Shortfall.Taint

namespace Kind

/-- The kinds that have a rule. -/
def modelled : List Kind := [sanitizer, userInput, assignment, methodCall, assertion]

private theorem eq_other_of_not_mem_modelled {kind : Kind} (h : kind ∉ modelled) :
    ∃ name, kind = other name := by
  cases kind with
  | other name => exact ⟨name, rfl⟩
  | _ => exact absurd (by decide) h

end Kind

private theorem Statement.writes_iff_of_unmodelled {stmt : Statement}
    (hkind : stmt.kind ∉ Kind.modelled) : stmt.writes = true ↔ stmt.target ≠ [] := by
  have hassertion : stmt.kind ≠ .assertion := by
    rintro heq
    exact hkind (heq ▸ by decide)
  simp [writes, hassertion]

namespace State

variable {σ : State} {stmt : Statement}

private theorem outLevel_of_unmodelled (σ : State) (hkind : stmt.kind ∉ Kind.modelled)
    (input : Level) : σ.outLevel stmt input = input.clamp := by
  obtain ⟨name, hname⟩ := Kind.eq_other_of_not_mem_modelled hkind
  simp only [outLevel, hname]

/-- A statement without a rule makes its target untainted and keeps all other levels. -/
theorem level_step_of_unmodelled (hclamped : σ.Clamped) (hkind : stmt.kind ∉ Kind.modelled)
    (name : Text) :
    (σ.step stmt).level name =
      if name ≠ [] ∧ name = stmt.target then .untainted else σ.level name := by
  have hwritten : stmt.writes = true ∧ name = stmt.target ↔ name ≠ [] ∧ name = stmt.target := by
    rw [Statement.writes_iff_of_unmodelled hkind]
    constructor
    · rintro ⟨hne, rfl⟩
      exact ⟨hne, rfl⟩
    · rintro ⟨hne, rfl⟩
      exact ⟨hne, rfl⟩
  rw [level_step hclamped, outLevel_of_unmodelled σ hkind, Level.clamp_untainted]
  simp only [hwritten]

/-- Statements without a rule make the targets they name untainted and keep all other levels. -/
theorem level_run_of_unmodelled {stmts : List Statement} (hclamped : σ.Clamped)
    (hkinds : ∀ stmt ∈ stmts, stmt.kind ∉ Kind.modelled) (name : Text) :
    (σ.run stmts).level name =
      if name ≠ [] ∧ name ∈ stmts.map (·.target) then .untainted else σ.level name := by
  induction stmts generalizing σ with
  | nil => simp [run]
  | cons stmt rest ih =>
      have hstep := level_step_of_unmodelled hclamped (hkinds stmt List.mem_cons_self) name
      have hrest := ih (hclamped.step stmt) fun other hother =>
        hkinds other (List.mem_cons_of_mem stmt hother)
      rw [run, List.foldl_cons, ← run, hrest, hstep, List.map_cons]
      grind

/-- **When a statement without a rule loses taint.** It lowers the level of a variable exactly when
that variable is its target and not untainted. So it keeps every level just where it has no target
or an untainted one. -/
theorem unmodelled_lowers_iff (hσ : σ.Reachable) (stmt : Statement)
    (hkind : stmt.kind ∉ Kind.modelled) :
    (∀ name, ((σ.step stmt).level name).rank < (σ.level name).rank ↔
      name ≠ [] ∧ name = stmt.target ∧ σ.level name ≠ .untainted) ∧
    ((∀ name, (σ.level name).rank ≤ ((σ.step stmt).level name).rank) ↔
      stmt.target = [] ∨ σ.level stmt.target = .untainted) := by
  have hclamped : σ.Clamped := hσ.wellFormed.clamped
  have hpositive : ∀ name, Level.untainted.rank < (σ.level name).rank ↔
      σ.level name ≠ .untainted := by
    intro name
    rw [← hclamped.clamp_level name, Ne, Level.clamp_eq_untainted_iff, not_le]
    rfl
  have hlowers : ∀ name, ((σ.step stmt).level name).rank < (σ.level name).rank ↔
      name ≠ [] ∧ name = stmt.target ∧ σ.level name ≠ .untainted := by
    intro name
    rw [level_step_of_unmodelled hclamped hkind]
    by_cases hwritten : name ≠ [] ∧ name = stmt.target
    · rw [if_pos hwritten, hpositive]
      exact ⟨fun hne => ⟨hwritten.1, hwritten.2, hne⟩, fun h => h.2.2⟩
    · rw [if_neg hwritten]
      exact ⟨fun h => absurd h (lt_irrefl _), fun h => absurd ⟨h.1, h.2.1⟩ hwritten⟩
  refine ⟨hlowers, ?_⟩
  constructor
  · intro hkept
    by_contra hneither
    rw [not_or] at hneither
    exact absurd (hkept stmt.target) (not_le.mpr ((hlowers _).mpr ⟨hneither.1, rfl, hneither.2⟩))
  · intro hharmless name
    by_contra hlowered
    obtain ⟨hne, rfl, htainted⟩ := (hlowers name).mp (not_le.mp hlowered)
    exact hharmless.elim hne htainted

/-- User input in `x`. -/
def inputRead : State :=
  State.empty.run [{ kind := .userInput, target := "x", source := "user" }]

/-- A loop that changes `x`, which the analysis has no rule for. -/
def loopOverX : Statement where
  kind := .other "loop"
  target := "x"
  expression := "x"
  sink := "db"

theorem loopOverX_lowers :
    inputRead.Reachable ∧ loopOverX.kind ∉ Kind.modelled ∧
      ((inputRead.step loopOverX).level "x").rank < (inputRead.level "x").rank := by
  have hreachable : inputRead.Reachable := .run .empty _
  have hkind : loopOverX.kind ∉ Kind.modelled := by decide
  have hlowers := (unmodelled_lowers_iff hreachable loopOverX hkind).1 "x"
  exact ⟨hreachable, hkind, hlowers.mpr ⟨by decide, rfl, by decide +kernel⟩⟩

/-- Statements without a rule do lose taint. -/
theorem unmodelled_statement_loses_taint :
    ¬∀ (σ : State) (stmt : Statement), σ.Reachable → stmt.kind ∉ Kind.modelled →
      ∀ name, (σ.level name).rank ≤ ((σ.step stmt).level name).rank := by
  intro h
  have hkept := h inputRead loopOverX (.run .empty _) (by decide) "x"
  exact absurd hkept (by decide +kernel)

end State

end Shortfall.Taint

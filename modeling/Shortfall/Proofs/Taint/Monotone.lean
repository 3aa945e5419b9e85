import Shortfall.Proofs.Taint.FlowViolation
import Shortfall.Proofs.Taint.Reachable

/-!
# More taint in, more taint out

Two states that track the same variables are compared variable by variable: `σ.Below τ` says that
`τ` has every level, source, sink and advisory of `σ`, and maybe more. The same statement, executed
in both, keeps them in this order, and so does a program.

What makes this work is that a statement reads the same variables in both states, because what a
dotted name stands for is a matter of which names are tracked and not of their levels
(`readSet_eq_of_tracks_eq`). Levels then move up with the join, and provenance with the set of
variables it is collected from, which grows with the levels as untainted variables are left out of
it. An assertion that is advised against in `σ` is tainted there, so `τ` can add nothing to its
reading and gives the very same advisory (`Below.read_eq`).

## Main results

* `Below.step`, `Below.run`: a statement and a program keep the order.
-/

namespace Shortfall.Taint

/-- One provenance has nothing that the other has not. -/
structure Provenance.Within (p q : Provenance) : Prop where
  sources : p.sources ⊆ q.sources
  sinks : p.sinks ⊆ q.sinks

private theorem Provenance.Within.merge_sink {p q : Provenance} (h : p.Within q) (sink : Sink) :
    (p.merge { sinks := [sink] }).Within (q.merge { sinks := [sink] }) where
  sources := by
    rw [sources_merge_sink, sources_merge_sink]
    exact h.sources
  sinks := by
    intro other hother
    rw [mem_sinks_merge_sink] at hother ⊢
    exact hother.imp_left fun hold => h.sinks hold

namespace State

/-- The states track the same variables, and `τ` has all the taint of `σ`. -/
structure Below (σ τ : State) : Prop where
  tracks : ∀ name, σ.tracks name = τ.tracks name
  level : ∀ name, (σ.level name).rank ≤ (τ.level name).rank
  provenance : ∀ name, (σ.provenance name).Within (τ.provenance name)
  advisories : σ.advisories.Sublist τ.advisories

variable {σ τ : State}

/-! ## Reading in two states -/

private theorem longestTracked?_eq_of_tracks_eq (h : ∀ name, σ.tracks name = τ.tracks name)
    (path : Text) : σ.longestTracked? path = τ.longestTracked? path := by
  simp only [longestTracked?, h]

theorem names_read_eq_of_tracks_eq (h : ∀ name, σ.tracks name = τ.tracks name)
    (expression : Text) : (σ.read expression).names = (τ.read expression).names := by
  simp only [read, readSpan_eq_readPaths, names_readPaths]
  rw [funext (longestTracked?_eq_of_tracks_eq h)]

/-- What a statement reads depends on the tracked names alone. -/
theorem readSet_eq_of_tracks_eq (h : ∀ name, σ.tracks name = τ.tracks name) (stmt : Statement) :
    σ.readSet stmt = τ.readSet stmt := by
  simp only [readSet, names_read_eq_of_tracks_eq h]

namespace Below

theorem level_read (h : σ.Below τ) (expression : Text) :
    (σ.read expression).level.rank ≤ (τ.read expression).level.rank := by
  rw [State.level_read, State.level_read, names_read_eq_of_tracks_eq h.tracks]
  exact Level.rank_joinAll_map_le fun name _ => h.level name

/-- An expression that is tainted in the lower state reads the same in both. -/
theorem read_eq (h : σ.Below τ) {expression : Text}
    (htainted : (σ.read expression).level = .tainted) : τ.read expression = σ.read expression := by
  have hclamp : (τ.read expression).level.clamp = (τ.read expression).level := by
    rw [State.level_read, Level.clamp_joinAll]
  have hrank := h.level_read expression
  rw [htainted] at hrank
  have hlevel : (τ.read expression).level = (σ.read expression).level := by
    rw [htainted]
    exact Level.eq_tainted_of_rank_le hclamp hrank
  have hnames := names_read_eq_of_tracks_eq h.tracks expression
  calc τ.read expression
      = ⟨(τ.read expression).level, (τ.read expression).names⟩ := rfl
    _ = ⟨(σ.read expression).level, (σ.read expression).names⟩ := by rw [hlevel, hnames]
    _ = σ.read expression := rfl

theorem outLevel (h : σ.Below τ) (stmt : Statement) :
    (σ.outLevel stmt .untainted).rank ≤ (τ.outLevel stmt .untainted).rank := by
  by_cases hinput : stmt.kind = .userInput
  · simp [State.outLevel, hinput]
  · rw [outLevel_eq_joinAll hinput, outLevel_eq_joinAll hinput, readSet_eq_of_tracks_eq h.tracks]
    exact Level.rank_joinAll_map_le fun name _ => h.level name

theorem writtenProvenance (h : σ.Below τ) (hσ : σ.Clamped) (stmt : Statement) :
    (σ.writtenProvenance stmt).Within (τ.writtenProvenance stmt) := by
  have hread := readSet_eq_of_tracks_eq h.tracks stmt
  -- A variable that counts in the lower state counts in the upper one.
  have hcounts : ∀ name, σ.level name ≠ .untainted → τ.level name ≠ .untainted := fun name hne =>
    Level.ne_untainted_of_rank_le (hσ.clamp_level name) (h.level name) hne
  constructor
  · intro source hsource
    rw [mem_sources_writtenProvenance, hread] at hsource
    rw [mem_sources_writtenProvenance]
    refine hsource.imp_right ?_
    rintro ⟨name, hname, hne, hmem⟩
    exact ⟨name, hname, hcounts name hne, (h.provenance name).sources hmem⟩
  · intro sink hsink
    rw [mem_sinks_writtenProvenance, hread] at hsink
    rw [mem_sinks_writtenProvenance]
    obtain ⟨name, hname, hne, hmem⟩ := hsink
    exact ⟨name, hname, hcounts name hne, (h.provenance name).sinks hmem⟩

/-- An advisory of the lower state is an advisory of the upper one. -/
theorem advisory? (h : σ.Below τ) {stmt : Statement} {advisory : Advisory}
    (hadvisory : σ.advisory? stmt = some advisory) : τ.advisory? stmt = some advisory := by
  rw [advisory?_eq] at hadvisory
  split at hadvisory
  · next hguard =>
      cases hadvisory
      rw [advisory?_eq, h.read_eq hguard.2.2, if_pos hguard]
  · cases hadvisory

/-! ## Running in two states -/

theorem step (h : σ.Below τ) (hσ : σ.Clamped) (hτ : τ.Clamped) (stmt : Statement) :
    (σ.step stmt).Below (τ.step stmt) where
  tracks := by
    intro name
    rw [tracks_step hσ, tracks_step hτ, h.tracks name]
  level := by
    intro name
    rw [level_step hσ, level_step hτ]
    split
    · exact h.outLevel stmt
    · exact h.level name
  provenance := by
    intro name
    rw [provenance_step, provenance_step, readSet_eq_of_tracks_eq h.tracks]
    split
    · exact h.writtenProvenance hσ stmt
    · split
      · exact (h.provenance name).merge_sink stmt.sinkRef
      · exact h.provenance name
  advisories := by
    rw [advisories_step, advisories_step]
    apply h.advisories.append
    cases hadvisory : σ.advisory? stmt with
    | none => exact List.nil_sublist _
    | some advisory => rw [h.advisory? hadvisory]

theorem run (h : σ.Below τ) (hσ : σ.Clamped) (hτ : τ.Clamped) (stmts : List Statement) :
    (σ.run stmts).Below (τ.run stmts) := by
  induction stmts generalizing σ τ with
  | nil => exact h
  | cons stmt rest ih => exact ih (h.step hσ hτ stmt) (hσ.step stmt) (hτ.step stmt)

private theorem flags (h : σ.Below τ) {name : Text} (hflags : σ.Flags name) : τ.Flags name := by
  rw [flags_iff] at hflags ⊢
  obtain ⟨htainted, hsinks⟩ := hflags
  refine ⟨?_, fun hnone => hsinks ?_⟩
  · have hrank := Level.rank_clamp_le (h.level name)
    simp only [Level.atLeast, decide_eq_true_eq] at htainted ⊢
    omega
  · have hwithin := (h.provenance name).sinks
    rw [hnone] at hwithin
    exact List.subset_nil.mp hwithin

end Below

/-- **Programs are monotone in the taint they start from.** Of two states that agree on everything
but levels, let one have the lower level for each variable. After any program it still tracks the
same variables, with lower levels, fewer sources and fewer sinks; its advisories are among those of
the other, in order; and whoever is flagged in it is flagged in the other. -/
theorem run_monotone (hσ : σ.Reachable) (hτ : τ.Reachable)
    (htracks : ∀ name, σ.tracks name = τ.tracks name)
    (hprovenance : ∀ name, σ.provenance name = τ.provenance name)
    (hadvisories : σ.advisories = τ.advisories)
    (hlevel : ∀ name, (σ.level name).rank ≤ (τ.level name).rank) (stmts : List Statement) :
    (∀ name, (σ.run stmts).tracks name = (τ.run stmts).tracks name) ∧
    (∀ name, ((σ.run stmts).level name).rank ≤ ((τ.run stmts).level name).rank) ∧
    (∀ name, ((σ.run stmts).provenance name).sources ⊆ ((τ.run stmts).provenance name).sources ∧
      ((σ.run stmts).provenance name).sinks ⊆ ((τ.run stmts).provenance name).sinks) ∧
    (σ.run stmts).advisories.Sublist (τ.run stmts).advisories ∧
    ∀ name, (σ.run stmts).Flags name → (τ.run stmts).Flags name := by
  have hstart : σ.Below τ :=
    { tracks := htracks
      level := hlevel
      provenance := fun name => by
        rw [hprovenance name]
        exact ⟨List.Subset.refl _, List.Subset.refl _⟩
      advisories := by rw [hadvisories] }
  have hend := hstart.run hσ.wellFormed.clamped hτ.wellFormed.clamped stmts
  exact ⟨hend.tracks, hend.level,
    fun name => ⟨(hend.provenance name).sources, (hend.provenance name).sinks⟩,
    hend.advisories, fun name => hend.flags⟩

/-- A variable `x` of the given level beside a tainted variable `y`. -/
def besideTainted (level : Level) : State :=
  (State.empty.write "x" level (some { sources := [Source.network] })).write "y" .tainted none

/-- Both variables go into a query, and both are asserted on. -/
def queryOfBoth : List Statement := [
  { kind := .assignment, target := "sql", expression := "concat(x.name, y)" },
  { kind := .methodCall, method := "query", args := ["x", "y"], sink := "db" },
  { kind := .assertion, expression := "x" },
  { kind := .assertion, expression := "y" }]

theorem queryOfBoth_monotone :
    (besideTainted .possiblyTainted).Reachable ∧ (besideTainted .tainted).Reachable ∧
      (∀ name, ((besideTainted .possiblyTainted).level name).rank ≤
        ((besideTainted .tainted).level name).rank) ∧
      ((besideTainted .possiblyTainted).run queryOfBoth).Flags "y" ∧
      ((besideTainted .tainted).run queryOfBoth).Flags "y" ∧
      ((besideTainted .possiblyTainted).run queryOfBoth).advisories.Sublist
        ((besideTainted .tainted).run queryOfBoth).advisories := by
  have hreachable : ∀ level, (besideTainted level).Reachable := fun level =>
    .write (.write .empty _ _ _) _ _ _
  have hlevel : ∀ name, ((besideTainted .possiblyTainted).level name).rank ≤
      ((besideTainted .tainted).level name).rank := by
    intro name
    simp only [besideTainted, level_write]
    split
    · exact le_refl _
    · split
      · decide
      · exact le_refl _
  have htracks : ∀ name, (besideTainted .possiblyTainted).tracks name =
      (besideTainted .tainted).tracks name := by
    intro name
    rw [Bool.eq_iff_iff]
    simp only [besideTainted, tracks_write]
  obtain ⟨_, _, _, hadvisories, hflags⟩ := run_monotone (hreachable .possiblyTainted)
    (hreachable .tainted) htracks (fun name => rfl) rfl hlevel queryOfBoth
  have hflagged : ((besideTainted .possiblyTainted).run queryOfBoth).Flags "y" := by
    rw [flags_iff]
    decide +kernel
  exact ⟨hreachable _, hreachable _, hlevel, hflagged, hflags "y" hflagged, hadvisories⟩

end State

end Shortfall.Taint

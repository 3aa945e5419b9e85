import Shortfall.Proofs.Taint.Reachable

/-!
# What a statement leaves alone

A statement can touch the state in three ways. It writes its target, it attaches its sink to the
variables it reads, and it notes an advisory. A sink is attached by writing the variable with the
level it has, and such a write could do more: it clamps the level, starts to track a variable that
was not tracked, and makes a provenance where there was none. In a state that can arise the first
two do nothing, since levels are clamped and what is read is tracked.

So a variable that no statement writes keeps its level and its sources through a whole run, and
only ever gains sinks (`Keeps`), each of a statement of the run.

## Main results

* `keeps_step`, `keeps_run`: what a variable keeps that is not written.
* `step_frame`: everything that one statement leaves alone.
-/

namespace Shortfall.Taint

/-- The statement has the variable as the target that it writes. -/
def Statement.WritesTo (stmt : Statement) (name : Text) : Prop :=
  stmt.kind ≠ .assertion ∧ stmt.target = name ∧ name ≠ []

instance (stmt : Statement) (name : Text) : Decidable (stmt.WritesTo name) :=
  inferInstanceAs (Decidable (_ ∧ _ ∧ _))

theorem Statement.writesTo_iff {stmt : Statement} {name : Text} :
    stmt.WritesTo name ↔ stmt.writes = true ∧ name = stmt.target := by
  rw [Statement.writes_iff]
  unfold Statement.WritesTo
  constructor
  · intro h
    exact ⟨⟨h.2.1 ▸ h.2.2, h.1⟩, h.2.1.symm⟩
  · intro h
    exact ⟨h.1.2, h.2.symm, h.2 ▸ h.1.1⟩

/-- The sink that a statement attaches to what it reads, if it names one. -/
def Statement.attachedSinks (stmt : Statement) : List Sink :=
  if stmt.sink = [] then [] else [stmt.sinkRef]

namespace State

variable {σ τ υ : State} {stmt : Statement} {name : Text}

/-! ## One statement -/

section Unwritten

variable (hwrites : ¬stmt.WritesTo name)

include hwrites

private theorem get?_levels_step_of_unwritten (h : σ.Clamped) :
    (σ.step stmt).levels.get? name = σ.levels.get? name := by
  rw [get?_levels_step h, if_neg fun hboth => hwrites (Statement.writesTo_iff.mpr hboth)]

theorem get?_provenances_step_of_unread
    (hread : stmt.sink = [] ∨ name ∉ σ.readSet stmt) :
    (σ.step stmt).provenances.get? name = σ.provenances.get? name := by
  have hnone : ¬(stmt.sink ≠ [] ∧ name ∈ σ.readSet stmt) := by
    intro hboth
    rcases hread with hsink | hunread
    · exact hboth.1 hsink
    · exact hunread hboth.2
  rw [get?_provenances_step, if_neg fun hboth => hwrites (Statement.writesTo_iff.mpr hboth),
    if_neg hnone]

/-- A variable that is read but not written keeps its sources, and gets the sink of the statement
unless it has it already. -/
theorem provenance_step_of_read (hread : name ∈ σ.readSet stmt) :
    (σ.step stmt).provenance name =
      { sources := (σ.provenance name).sources
        sinks :=
          if stmt.sink ≠ [] ∧ stmt.sinkRef ∉ (σ.provenance name).sinks then
            (σ.provenance name).sinks ++ [stmt.sinkRef]
          else (σ.provenance name).sinks } := by
  rw [provenance_step, if_neg fun hboth => hwrites (Statement.writesTo_iff.mpr hboth)]
  by_cases hsink : stmt.sink = []
  · rw [if_neg fun hboth => hboth.1 hsink, if_neg fun hboth => hboth.1 hsink]
  · rw [if_pos ⟨hsink, hread⟩, Provenance.merge, appendNew_singleton]
    by_cases hknown : stmt.sinkRef ∈ (σ.provenance name).sinks
    · rw [if_pos hknown, if_neg fun hboth => hboth.2 hknown]
      rfl
    · rw [if_neg hknown, if_pos ⟨hsink, hknown⟩]
      rfl

end Unwritten

/-! ## Whole runs -/

/-- What a variable keeps from one state to another: its level, its sources, and its sinks, to which
some of `added` may have come. -/
structure Keeps (σ τ : State) (name : Text) (added : List Sink) : Prop where
  level : τ.level name = σ.level name
  tracks : τ.tracks name = σ.tracks name
  sources : (τ.provenance name).sources = (σ.provenance name).sources
  sinks : ∃ gained, (τ.provenance name).sinks = (σ.provenance name).sinks ++ gained ∧
    ∀ sink ∈ gained, sink ∈ added

theorem Keeps.trans {added more : List Sink} (h : Keeps σ τ name added)
    (h' : Keeps τ υ name more) : Keeps σ υ name (added ++ more) := by
  obtain ⟨gained, hgained, hfrom⟩ := h.sinks
  obtain ⟨later, hlater, hfrom'⟩ := h'.sinks
  refine ⟨h'.level.trans h.level, h'.tracks.trans h.tracks, h'.sources.trans h.sources,
    gained ++ later, by rw [hlater, hgained, List.append_assoc], fun sink hsink => ?_⟩
  rcases List.mem_append.mp hsink with hsink | hsink
  · exact List.mem_append_left more (hfrom sink hsink)
  · exact List.mem_append_right added (hfrom' sink hsink)

/-- **A statement that does not write a variable can only attach its sink to it.** -/
theorem keeps_step (h : σ.Clamped) (hwrites : ¬stmt.WritesTo name) :
    Keeps σ (σ.step stmt) name stmt.attachedSinks := by
  have hget := get?_levels_step_of_unwritten hwrites h
  have hlevel : (σ.step stmt).level name = σ.level name := by rw [State.level, hget, State.level]
  have htracks : (σ.step stmt).tracks name = σ.tracks name := by
    rw [tracks, NameMap.contains, hget, tracks, NameMap.contains]
  by_cases hread : name ∈ σ.readSet stmt
  · have hprovenance := provenance_step_of_read hwrites hread
    refine ⟨hlevel, htracks, by rw [hprovenance], ?_⟩
    rw [hprovenance]
    by_cases hnew : stmt.sink ≠ [] ∧ stmt.sinkRef ∉ (σ.provenance name).sinks
    · refine ⟨[stmt.sinkRef], if_pos hnew, fun sink hsink => ?_⟩
      rwa [Statement.attachedSinks, if_neg hnew.1]
    · exact ⟨[], by rw [if_neg hnew, List.append_nil], fun sink hsink => absurd hsink (by simp)⟩
  · have hsame : (σ.step stmt).provenance name = σ.provenance name := by
      rw [State.provenance, get?_provenances_step_of_unread hwrites (.inr hread), State.provenance]
    exact ⟨hlevel, htracks, by rw [hsame], [], by rw [hsame, List.append_nil],
      fun sink hsink => absurd hsink (by simp)⟩

/-- **A variable that no statement of a run writes** has the level and the sources at the end that
it had at the start, and of new sinks only those that the run names. -/
theorem keeps_run (h : σ.Clamped) {stmts : List Statement}
    (hwrites : ∀ stmt ∈ stmts, ¬stmt.WritesTo name) :
    Keeps σ (σ.run stmts) name (stmts.flatMap Statement.attachedSinks) := by
  induction stmts generalizing σ with
  | nil => exact ⟨rfl, rfl, rfl, [], (List.append_nil _).symm, fun sink hsink => hsink⟩
  | cons stmt rest ih =>
      have hfirst := keeps_step h (hwrites stmt (by simp))
      have hrest := ih (h.step stmt) fun other hother => hwrites other (by simp [hother])
      rw [List.flatMap_cons]
      exact hfirst.trans hrest

/-- **The frame of one statement**, in every state that can arise. No variable but a written target
changes its level or comes to be tracked. A variable that is neither written nor read keeps its
provenance. One that is read and not written keeps its sources; its sinks stay, or the sink of the
statement is put behind them, when the statement names one that is not among them. The log gets one
advisory more when the statement is an assertion that expects no rejection and its expression is
tainted, and stays as it is otherwise. -/
theorem step_frame {σ : State} (h : σ.Reachable) (stmt : Statement) :
    (∀ name, ¬stmt.WritesTo name →
      (σ.step stmt).level name = σ.level name ∧ (σ.step stmt).tracks name = σ.tracks name) ∧
    (∀ name, ¬stmt.WritesTo name → name ∉ σ.readSet stmt →
      (σ.step stmt).provenances.get? name = σ.provenances.get? name) ∧
    (∀ name, ¬stmt.WritesTo name → name ∈ σ.readSet stmt →
      (stmt.sink = [] → (σ.step stmt).provenances.get? name = σ.provenances.get? name) ∧
      ((σ.step stmt).provenance name).sources = (σ.provenance name).sources ∧
      ((σ.step stmt).provenance name).sinks =
        if stmt.sink ≠ [] ∧ stmt.sinkRef ∉ (σ.provenance name).sinks then
          (σ.provenance name).sinks ++ [stmt.sinkRef]
        else (σ.provenance name).sinks) ∧
    (σ.step stmt).advisories = σ.advisories ++
      if stmt.kind = .assertion ∧ stmt.negative = false ∧
          (σ.read stmt.expression).level = .tainted then
        [{ expression := stmt.expression
           variableNames := (σ.read stmt.expression).names
           level := .tainted }]
      else [] := by
  have hclamped := h.wellFormed.clamped
  refine ⟨fun name hwrites => ?_, fun name hwrites hread => ?_, fun name hwrites hread => ?_, ?_⟩
  · have hkeeps := keeps_step hclamped hwrites
    exact ⟨hkeeps.level, hkeeps.tracks⟩
  · exact get?_provenances_step_of_unread hwrites (.inr hread)
  · rw [provenance_step_of_read hwrites hread]
    exact ⟨fun hsink => get?_provenances_step_of_unread hwrites (.inl hsink), rfl, rfl⟩
  · rw [advisories_step, advisory?_eq]
    split <;> rfl

/-- A call that stores its answer in one of the variables it reads, and sends both to a sink. -/
def lookUpInPlace : Statement where
  kind := .methodCall
  method := "find"
  args := ["x.id", "x"]
  target := "x"
  sink := "db"

theorem lookUpInPlace_frame :
    inputAndId.Reachable ∧ lookUpInPlace.WritesTo "x" ∧
      inputAndId.readSet lookUpInPlace = ["x", "x.id"] ∧
      ¬lookUpInPlace.WritesTo "x.id" ∧
      (inputAndId.step lookUpInPlace).level "x.id" = inputAndId.level "x.id" ∧
      ((inputAndId.step lookUpInPlace).provenance "x.id").sources =
        (inputAndId.provenance "x.id").sources ∧
      ((inputAndId.step lookUpInPlace).provenance "x.id").sinks = [lookUpInPlace.sinkRef] ∧
      (inputAndId.step lookUpInPlace).provenances.get? "y" = inputAndId.provenances.get? "y" ∧
      (inputAndId.step lookUpInPlace).advisories = inputAndId.advisories := by
  have hreachable : inputAndId.Reachable := .run (.write .empty _ _ _) _
  have hreads : inputAndId.readSet lookUpInPlace = ["x", "x.id"] := by decide +kernel
  have hunwritten : ¬lookUpInPlace.WritesTo "x.id" := by decide
  obtain ⟨hlevels, hunread, hread, hadvisories⟩ := step_frame hreachable lookUpInPlace
  obtain ⟨_, hsources, hsinks⟩ := hread "x.id" hunwritten (by rw [hreads]; decide)
  refine ⟨hreachable, by decide, hreads, hunwritten, (hlevels "x.id" hunwritten).1, hsources,
    hsinks.trans (by decide +kernel), hunread "y" (by decide) (by rw [hreads]; decide), ?_⟩
  rw [hadvisories, if_neg (by decide), List.append_nil]

end State

end Shortfall.Taint

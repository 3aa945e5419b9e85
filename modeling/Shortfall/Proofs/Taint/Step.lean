import Shortfall.Proofs.Taint.ReadSet

/-!
# What one statement does to the state

One equation for each of the two maps of a state, and one for its log, tells everything a step does
to it: a written target gets the new value, a variable read by a sink statement gets the sink, and
every other variable keeps what it had. The order inside a step matters here. Provenance is
collected before the sink is attached, and the target is written last, so a statement that reads
and writes the same variable at a sink leaves no trace of the sink on it.

## Main results

* `get?_levels_step`, `get?_provenances_step`: the two maps after a step.
* `advisory?_eq`, `advisories_step`: when a step notes an advisory, and the log after it.
* `mem_sources_writtenProvenance`, `mem_sinks_writtenProvenance`: what a written value inherits.
-/

namespace Shortfall.Taint

/-- The sink a statement names. -/
def Statement.sinkRef (stmt : Statement) : Sink where
  name := stmt.sink
  kind := stmt.kind.name
  line := stmt.line

namespace Provenance

@[simp] theorem sources_merge_sink (p : Provenance) (sink : Sink) :
    (p.merge { sinks := [sink] }).sources = p.sources := rfl

@[simp] theorem mem_sinks_merge_sink {p : Provenance} {sink other : Sink} :
    other ∈ (p.merge { sinks := [sink] }).sinks ↔ other ∈ p.sinks ∨ other = sink := by
  simp [merge]

private theorem merge_sink_merge_sink (p : Provenance) (sink : Sink) :
    (p.merge { sinks := [sink] }).merge { sinks := [sink] } = p.merge { sinks := [sink] } := by
  have hknown : sink ∈ appendNew p.sinks [sink] := by simp
  have hsinks := appendNew_singleton_of_mem hknown
  simp only [merge, hsinks]
  rfl

/-- Merging one provenance after another merges sources and sinks separately. -/
theorem foldl_merge (f : Text → Provenance) (names : List Text) (start : Provenance) :
    names.foldl (fun merged name => merged.merge (f name)) start =
      { sources := names.foldl (fun known name => appendNew known (f name).sources) start.sources
        sinks := names.foldl (fun known name => appendNew known (f name).sinks) start.sinks } := by
  induction names generalizing start with
  | nil => rfl
  | cons name rest ih => exact ih (start.merge (f name))

end Provenance

namespace State

/-- Every recorded level is a point of the chain. -/
def Clamped (σ : State) : Prop :=
  ∀ name level, σ.levels.get? name = some level → level.clamp = level

theorem Clamped.clamp_level {σ : State} (h : σ.Clamped) (name : Text) :
    (σ.level name).clamp = σ.level name := by
  rw [level]
  cases hget : σ.levels.get? name with
  | none => exact Level.clamp_untainted
  | some level => exact h name level hget

/-! ## Attaching a sink -/

private theorem get?_provenances_attachSink (sink : Sink) (names : List Text) (name : Text) :
    ∀ σ : State, (σ.attachSink sink names).provenances.get? name =
      if name ∈ names then some ((σ.provenance name).merge { sinks := [sink] })
      else σ.provenances.get? name := by
  induction names with
  | nil => intro σ; simp [attachSink]
  | cons head rest ih =>
      intro σ
      rw [attachSink, List.foldl_cons, ← attachSink, ih]
      by_cases hhead : name = head
      · -- A second sight of the same variable finds the sink there already.
        subst hhead
        simp [write, provenance, Provenance.merge_sink_merge_sink]
      · simp [write, provenance, NameMap.get?_insert, hhead]

/-- Attaching a sink to tracked variables leaves every level as it is. -/
theorem get?_levels_attachSink (sink : Sink) (names : List Text) (name : Text) :
    ∀ σ : State, σ.Clamped → (∀ other ∈ names, σ.tracks other = true) →
      (σ.attachSink sink names).levels.get? name = σ.levels.get? name := by
  induction names with
  | nil => intro σ _ _; rfl
  | cons head rest ih =>
      intro σ hclamped htracks
      have hsame : ∀ other,
          (σ.write head (σ.level head)
            (some ((σ.provenance head).merge { sinks := [sink] }))).levels.get? other =
            σ.levels.get? other := by
        intro other
        obtain ⟨level, hget⟩ := tracks_iff.mp (htracks head (by simp))
        simp only [write, NameMap.get?_insert]
        split
        · next heq => rw [heq, hclamped.clamp_level, level_of_get? hget, hget]
        · rfl
      rw [attachSink, List.foldl_cons, ← attachSink, ih, hsame]
      · intro other level hget
        exact hclamped other level (by rw [← hget, hsame])
      · intro other hother
        obtain ⟨level, hget⟩ := tracks_iff.mp (htracks other (by simp [hother]))
        exact tracks_iff.mpr ⟨level, by rw [hsame, hget]⟩

/-! ## One step -/

@[simp] theorem levels_transfer (σ : State) (stmt : Statement) (input : Level) :
    (σ.transfer stmt input).1.levels = σ.levels := by
  simp only [transfer]
  split <;> rfl

@[simp] theorem provenances_transfer (σ : State) (stmt : Statement) (input : Level) :
    (σ.transfer stmt input).1.provenances = σ.provenances := by
  simp only [transfer]
  split <;> rfl

theorem get?_provenances_step (σ : State) (stmt : Statement) (name : Text) :
    (σ.step stmt).provenances.get? name =
      if stmt.writes = true ∧ name = stmt.target then some (σ.writtenProvenance stmt)
      else if stmt.sink ≠ [] ∧ name ∈ σ.readSet stmt then
        some ((σ.provenance name).merge { sinks := [stmt.sinkRef] })
      else σ.provenances.get? name := by
  have hsunk : (if stmt.sink.isEmpty then (σ.transfer stmt .untainted).1
      else (σ.transfer stmt .untainted).1.attachSink stmt.sinkRef
        (σ.readSet stmt)).provenances.get? name =
      if stmt.sink ≠ [] ∧ name ∈ σ.readSet stmt then
        some ((σ.provenance name).merge { sinks := [stmt.sinkRef] })
      else σ.provenances.get? name := by
    by_cases hsink : stmt.sink = []
    · simp [hsink]
    · simp [hsink, get?_provenances_attachSink, provenance]
  rw [← hsunk]
  unfold step
  by_cases hwrites : stmt.writes = true
  · simp only [hwrites, if_true, write, NameMap.get?_insert, true_and]
    rfl
  · simp only [hwrites, false_and, if_false, Bool.false_eq_true]
    rfl

theorem get?_levels_step {σ : State} (hclamped : σ.Clamped) (stmt : Statement) (name : Text) :
    (σ.step stmt).levels.get? name =
      if stmt.writes = true ∧ name = stmt.target then some (σ.outLevel stmt .untainted)
      else σ.levels.get? name := by
  have hsunk : (if stmt.sink.isEmpty then (σ.transfer stmt .untainted).1
      else (σ.transfer stmt .untainted).1.attachSink stmt.sinkRef
        (σ.readSet stmt)).levels.get? name = σ.levels.get? name := by
    split
    · rw [levels_transfer]
    · rw [get?_levels_attachSink, levels_transfer]
      · simpa only [Clamped, levels_transfer] using hclamped
      · intro other hother
        simpa only [tracks, levels_transfer] using tracks_of_mem_readSet hother
  rw [← hsunk]
  unfold step
  by_cases hwrites : stmt.writes = true
  · have hout := clamp_outLevel σ stmt .untainted
    simp only [hwrites, if_true, write, NameMap.get?_insert, true_and, transfer, hout]
    rfl
  · simp only [hwrites, false_and, if_false, Bool.false_eq_true]
    rfl

theorem provenance_step (σ : State) (stmt : Statement) (name : Text) :
    (σ.step stmt).provenance name =
      if stmt.writes = true ∧ name = stmt.target then σ.writtenProvenance stmt
      else if stmt.sink ≠ [] ∧ name ∈ σ.readSet stmt then
        (σ.provenance name).merge { sinks := [stmt.sinkRef] }
      else σ.provenance name := by
  simp only [provenance, get?_provenances_step]
  split
  · rfl
  · split <;> rfl

theorem level_step {σ : State} (hclamped : σ.Clamped) (stmt : Statement) (name : Text) :
    (σ.step stmt).level name =
      if stmt.writes = true ∧ name = stmt.target then σ.outLevel stmt .untainted
      else σ.level name := by
  simp only [level, get?_levels_step hclamped]
  split <;> rfl

theorem tracks_step {σ : State} (hclamped : σ.Clamped) (stmt : Statement) (name : Text) :
    (σ.step stmt).tracks name =
      if stmt.writes = true ∧ name = stmt.target then true else σ.tracks name := by
  simp only [tracks, NameMap.contains, get?_levels_step hclamped]
  split <;> rfl

@[simp] theorem advisories_attachSink (σ : State) (sink : Sink) (names : List Text) :
    (σ.attachSink sink names).advisories = σ.advisories := by
  induction names generalizing σ with
  | nil => rfl
  | cons name rest ih => exact ih _

/-- The advisory of a statement: an assertion that expects no rejection notes one when what it looks
at is tainted. -/
theorem advisory?_eq (σ : State) (stmt : Statement) :
    σ.advisory? stmt =
      if stmt.kind = .assertion ∧ stmt.negative = false ∧
          (σ.read stmt.expression).level = .tainted then
        some { expression := stmt.expression
               variableNames := (σ.read stmt.expression).names
               level := .tainted }
      else none := by
  have hclamp : (σ.read stmt.expression).level.clamp = (σ.read stmt.expression).level := by
    rw [level_read, Level.clamp_joinAll]
  have hguard : (stmt.kind = .assertion && (σ.read stmt.expression).level.atLeast .tainted
      && !stmt.negative) = true ↔
        stmt.kind = .assertion ∧ stmt.negative = false ∧
          (σ.read stmt.expression).level = .tainted := by
    rw [Bool.and_eq_true, Bool.and_eq_true, Level.atLeast_tainted_iff, hclamp]
    simp only [decide_eq_true_eq, Bool.not_eq_true', and_assoc]
    exact and_congr_right fun _ => and_comm
  unfold advisory?
  by_cases h : stmt.kind = .assertion ∧ stmt.negative = false ∧
      (σ.read stmt.expression).level = .tainted
  · rw [if_pos h, if_pos (hguard.mpr h), h.2.2]
  · rw [if_neg h, if_neg (mt hguard.mp h)]

theorem advisories_transfer (σ : State) (stmt : Statement) (input : Level) :
    (σ.transfer stmt input).1.advisories = σ.advisories ++ (σ.advisory? stmt).toList := by
  simp only [transfer]
  split
  · next advisory hadvisory =>
      rw [hadvisory]
      rfl
  · next hnone =>
      rw [hnone]
      exact (List.append_nil _).symm

/-- A statement adds its advisory, if it has one, to those before it. -/
theorem advisories_step (σ : State) (stmt : Statement) :
    (σ.step stmt).advisories = σ.advisories ++ (σ.advisory? stmt).toList := by
  -- Neither attaching a sink nor writing the target touches the log.
  rw [← advisories_transfer σ stmt .untainted]
  simp only [step]
  split
  · split
    · rfl
    · exact advisories_attachSink _ _ _
  · split
    · rfl
    · exact advisories_attachSink _ _ _

theorem Clamped.step {σ : State} (hclamped : σ.Clamped) (stmt : Statement) :
    (σ.step stmt).Clamped := by
  intro name level hget
  rw [get?_levels_step hclamped] at hget
  split at hget
  · cases hget
    exact clamp_outLevel σ stmt .untainted
  · exact hclamped name level hget

theorem Clamped.run {σ : State} (hclamped : σ.Clamped) (stmts : List Statement) :
    (σ.run stmts).Clamped := by
  induction stmts generalizing σ with
  | nil => exact hclamped
  | cons stmt rest ih => exact ih (hclamped.step stmt)

/-! ## What a written value inherits -/

/-- The provenance of a value that is computed from variables: that of the tainted ones. -/
theorem writtenProvenance_eq_foldl (σ : State) {stmt : Statement}
    (hinput : stmt.kind ≠ .userInput) :
    σ.writtenProvenance stmt =
      ((σ.readSet stmt).filter fun name => σ.level name ≠ .untainted).foldl
        (fun merged name => merged.merge (σ.provenance name)) .none := by
  cases hkind : stmt.kind with
  | userInput => exact absurd hkind hinput
  | sanitizer => simp [writtenProvenance, readSet, hkind]
  | _ => simp only [writtenProvenance, hkind]

theorem mem_sources_writtenProvenance {σ : State} {stmt : Statement} {source : Source} :
    source ∈ (σ.writtenProvenance stmt).sources ↔
      (stmt.kind = .userInput ∧ Source.parse stmt.source = source) ∨
        ∃ name ∈ σ.readSet stmt,
          σ.level name ≠ .untainted ∧ source ∈ (σ.provenance name).sources := by
  by_cases hinput : stmt.kind = .userInput
  · simp [writtenProvenance, readSet, hinput, eq_comm]
  · rw [writtenProvenance_eq_foldl σ hinput, Provenance.foldl_merge, mem_foldl_appendNew]
    simp [hinput, Provenance.none, and_assoc]

theorem mem_sinks_writtenProvenance {σ : State} {stmt : Statement} {sink : Sink} :
    sink ∈ (σ.writtenProvenance stmt).sinks ↔
      ∃ name ∈ σ.readSet stmt,
        σ.level name ≠ .untainted ∧ sink ∈ (σ.provenance name).sinks := by
  by_cases hinput : stmt.kind = .userInput
  · simp [writtenProvenance, readSet, hinput]
  · rw [writtenProvenance_eq_foldl σ hinput, Provenance.foldl_merge, mem_foldl_appendNew]
    simp [Provenance.none, and_assoc]

theorem nodup_sources_writtenProvenance (σ : State) (stmt : Statement) :
    (σ.writtenProvenance stmt).sources.Nodup := by
  by_cases hinput : stmt.kind = .userInput
  · simp [writtenProvenance, hinput]
  · rw [writtenProvenance_eq_foldl σ hinput, Provenance.foldl_merge]
    exact nodup_foldl_appendNew _ (by simp [Provenance.none]) _

end State

end Shortfall.Taint

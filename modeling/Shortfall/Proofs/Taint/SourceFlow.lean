import Mathlib.Logic.Relation
import Shortfall.Proofs.Taint.DefUse

/-!
# Where tainted data comes from

The sources recorded for a variable at the end of a run are exactly the user inputs from which a
chain of definitions and uses leads to the last write of that variable, and the variable is tainted
exactly when there is one. Overwriting ends a chain, a sanitizer starts none, and a variable may
well be computed from itself.

The invariant is `Holds`: it ties what the state has under one name to the statement that wrote
the name last. One statement keeps it (`holds_step_of_writesAt`, `holds_step_of_not_writesAt`),
so it holds at every point of a run (`holds_stateAt`).
-/

namespace Shortfall.Taint

/-- The statement at index `i` is a user input from the given source. -/
def StartsAt (stmts : List Statement) (source : Source) (i : Nat) : Prop :=
  ∃ stmt, stmts[i]? = some stmt ∧ stmt.kind = .userInput ∧ Source.parse stmt.source = source

/-- Data from the source arrives at the statement at index `j`. -/
def Carries (stmts : List Statement) (source : Source) (j : Nat) : Prop :=
  ∃ i, StartsAt stmts source i ∧ Relation.ReflTransGen (DefUse stmts) i j

/-- The level of a value whose sources are all known: tainted when it has any. -/
def levelOfSources (sources : List Source) : Level :=
  if sources = [] then .untainted else .tainted

/-- What the state has under `name` is what the statement at index `i` wrote there: its sources
are those that arrive at `i`. -/
structure Holds (stmts : List Statement) (σ : State) (name : Text) (i : Nat) : Prop where
  recorded : (σ.provenances.get? name).isSome = true
  level : σ.levels.get? name = some (levelOfSources (σ.provenance name).sources)
  nodup : (σ.provenance name).sources.Nodup
  mem_sources : ∀ source, source ∈ (σ.provenance name).sources ↔ Carries stmts source i

variable {stmts : List Statement}

/-! ## Chains -/

theorem startsAt_iff {n : Nat} {stmt : Statement} (h : stmts[n]? = some stmt) {source : Source} :
    StartsAt stmts source n ↔ stmt.kind = .userInput ∧ Source.parse stmt.source = source := by
  simp only [StartsAt, h, Option.some.injEq, exists_eq_left']

theorem Carries.tail {source : Source} {i j : Nat} (h : Carries stmts source i)
    (huse : DefUse stmts i j) : Carries stmts source j := by
  obtain ⟨start, hstart, hchain⟩ := h
  exact ⟨start, hstart, hchain.tail huse⟩

/-- A source arrives at a statement that is an input from it, or with a variable read there. -/
theorem carries_iff {source : Source} {j : Nat} {stmt : Statement} (h : stmts[j]? = some stmt) :
    Carries stmts source j ↔
      (stmt.kind = .userInput ∧ Source.parse stmt.source = source) ∨
        ∃ name, HandsOn stmts name j ∧ ∃ i, LastWrite stmts name i j ∧ Carries stmts source i := by
  constructor
  · rintro ⟨i, hstart, hchain⟩
    rcases hchain.cases_tail with rfl | ⟨k, hchain, name, hlast, hreads⟩
    · exact Or.inl ((startsAt_iff h).mp hstart)
    · exact Or.inr ⟨name, hreads, k, hlast, i, hstart, hchain⟩
  · rintro (hinput | ⟨name, hreads, i, hlast, hcarries⟩)
    · exact ⟨j, (startsAt_iff h).mpr hinput, .refl⟩
    · exact hcarries.tail ⟨name, hlast, hreads⟩

/-! ## Levels and sources belong together -/

theorem levelOfSources_ne_untainted_iff {sources : List Source} :
    levelOfSources sources ≠ .untainted ↔ ∃ source, source ∈ sources := by
  unfold levelOfSources
  cases sources with
  | nil => simp
  | cons source rest =>
      rw [if_neg (by simp)]
      exact ⟨fun _ => ⟨source, by simp⟩, fun _ => by decide⟩

theorem levelOfSources_eq_tainted_iff {sources : List Source} :
    levelOfSources sources = .tainted ↔ ∃ source, source ∈ sources := by
  rw [← levelOfSources_ne_untainted_iff]
  unfold levelOfSources
  split <;> decide

namespace Holds

variable {σ : State} {name : Text} {i : Nat}

theorem level_eq (h : Holds stmts σ name i) :
    σ.level name = levelOfSources (σ.provenance name).sources :=
  State.level_of_get? h.level

theorem tainted_iff (h : Holds stmts σ name i) :
    σ.level name = .tainted ↔ ∃ source, Carries stmts source i := by
  rw [h.level_eq, levelOfSources_eq_tainted_iff]
  simp only [h.mem_sources]

theorem ne_untainted_iff (h : Holds stmts σ name i) :
    σ.level name ≠ .untainted ↔ ∃ source, Carries stmts source i := by
  rw [h.level_eq, levelOfSources_ne_untainted_iff]
  simp only [h.mem_sources]

end Holds

/-- When every variable that is read holds what its last write put there, a statement computes the
level that belongs to the sources it collects. -/
theorem outLevel_eq_levelOfSources {σ : State} {stmt : Statement}
    (hread : ∀ name ∈ σ.readSet stmt, ∃ i, Holds stmts σ name i) :
    σ.outLevel stmt .untainted = levelOfSources (σ.writtenProvenance stmt).sources := by
  by_cases hinput : stmt.kind = .userInput
  · simp [State.outLevel, State.writtenProvenance, hinput, levelOfSources]
  rw [State.outLevel_eq_joinAll hinput]
  by_cases hnone : (σ.writtenProvenance stmt).sources = []
  · rw [levelOfSources, if_pos hnone, Level.joinAll_eq_untainted_iff]
    simp only [List.forall_mem_map]
    intro name hname
    obtain ⟨i, hholds⟩ := hread name hname
    -- A tainted variable would have a source, and the statement would have collected it.
    by_contra hne
    have htainted : σ.level name ≠ .untainted := fun h => hne (by rw [h, Level.clamp_untainted])
    obtain ⟨source, hsource⟩ := hholds.ne_untainted_iff.mp htainted
    have hmem : source ∈ (σ.writtenProvenance stmt).sources :=
      State.mem_sources_writtenProvenance.mpr
        (Or.inr ⟨name, hname, htainted, (hholds.mem_sources source).mpr hsource⟩)
    rw [hnone] at hmem
    simp at hmem
  · rw [levelOfSources, if_neg hnone, Level.joinAll_eq_tainted_iff]
    obtain ⟨source, hsource⟩ := List.exists_mem_of_ne_nil _ hnone
    rcases State.mem_sources_writtenProvenance.mp hsource with ⟨hkind, _⟩ | ⟨name, hname, hne, _⟩
    · exact absurd hkind hinput
    · obtain ⟨i, hholds⟩ := hread name hname
      have htainted := hholds.tainted_iff.mpr (hholds.ne_untainted_iff.mp hne)
      exact ⟨σ.level name, List.mem_map_of_mem hname, by rw [htainted, Level.clamp_tainted]⟩

/-! ## The invariant along a run -/

theorem holds_step_of_writesAt {n : Nat} {stmt : Statement} {name : Text}
    (hstmt : stmts[n]? = some stmt) (hwrites : WritesAt stmts name n)
    (ih : ∀ other i, LastWrite stmts other i n → Holds stmts (stateAt stmts n) other i) :
    Holds stmts (stateAt stmts (n + 1)) name n := by
  have hn := le_length_of_getElem? hstmt
  have htarget := (writesAt_iff hstmt).mp hwrites
  have hread : ∀ other ∈ (stateAt stmts n).readSet stmt,
      ∃ i, LastWrite stmts other i n ∧ Holds stmts (stateAt stmts n) other i := by
    intro other hother
    obtain ⟨i, hlast⟩ := exists_lastWrite_of_mem_readSet hn hother
    exact ⟨i, hlast, ih other i hlast⟩
  have hget : (stateAt stmts (n + 1)).provenances.get? name =
      some ((stateAt stmts n).writtenProvenance stmt) := by
    rw [stateAt_succ hstmt, State.get?_provenances_step, if_pos htarget]
  have hwritten : (stateAt stmts (n + 1)).provenance name =
      (stateAt stmts n).writtenProvenance stmt := by
    rw [State.provenance, hget, Option.getD_some]
  refine ⟨by rw [hget, Option.isSome_some], ?_, ?_, ?_⟩
  · rw [get?_levels_stateAt_succ hstmt, if_pos htarget, hwritten,
      outLevel_eq_levelOfSources fun other hother => (hread other hother).imp fun _ h => h.2]
  · rw [hwritten]
    exact State.nodup_sources_writtenProvenance _ _
  · intro source
    rw [hwritten, State.mem_sources_writtenProvenance, carries_iff hstmt]
    refine or_congr_right ⟨?_, ?_⟩
    · rintro ⟨other, hother, _, hsource⟩
      obtain ⟨i, hlast, hholds⟩ := hread other hother
      have hpasses := State.passesOn_of_mem_readSet hother (Statement.writes_iff.mp htarget.1).2
      exact ⟨other, (handsOn_iff hstmt).mpr ⟨hpasses, hother⟩, i, hlast,
        (hholds.mem_sources source).mp hsource⟩
    · rintro ⟨other, hreads, i, hlast, hcarries⟩
      have hother := ((handsOn_iff hstmt).mp hreads).2
      have hholds := ih other i hlast
      exact ⟨other, hother, hholds.ne_untainted_iff.mpr ⟨source, hcarries⟩,
        (hholds.mem_sources source).mpr hcarries⟩

/-- A statement that does not write a variable may attach a sink to it, and nothing else. -/
theorem holds_step_of_not_writesAt {n i : Nat} {stmt : Statement} {name : Text}
    (hstmt : stmts[n]? = some stmt) (hwrites : ¬WritesAt stmts name n)
    (h : Holds stmts (stateAt stmts n) name i) :
    Holds stmts (stateAt stmts (n + 1)) name i := by
  have htarget := mt (writesAt_iff hstmt).mpr hwrites
  have hget := State.get?_provenances_step (stateAt stmts n) stmt name
  rw [← stateAt_succ hstmt, if_neg htarget] at hget
  have hsources : ((stateAt stmts (n + 1)).provenance name).sources =
      ((stateAt stmts n).provenance name).sources := by
    rw [State.provenance, hget]
    split
    · rw [Option.getD_some, Provenance.sources_merge_sink]
    · rfl
  refine ⟨?_, ?_, ?_, ?_⟩
  · rw [hget]
    split
    · rfl
    · exact h.recorded
  · rw [get?_levels_stateAt_succ hstmt, if_neg htarget, hsources]
    exact h.level
  · rw [hsources]
    exact h.nodup
  · rw [hsources]
    exact h.mem_sources

/-- **At every point, every variable holds what its last write put there.** -/
theorem holds_stateAt : ∀ n, n ≤ stmts.length →
    ∀ name i, LastWrite stmts name i n → Holds stmts (stateAt stmts n) name i := by
  refine forall_points stmts ?_ ?_
  · intro name i hlast
    exact absurd hlast.before (Nat.not_lt_zero i)
  · intro n stmt hstmt ih name i hlast
    by_cases hwrites : WritesAt stmts name n
    · rw [lastWrite_succ_of_writesAt hwrites] at hlast
      subst hlast
      exact holds_step_of_writesAt hstmt hwrites ih
    · rw [lastWrite_succ_of_not_writesAt hwrites] at hlast
      exact holds_step_of_not_writesAt hstmt hwrites (ih name i hlast)

/-- Nothing is recorded for a variable that no statement has written. -/
theorem get?_provenances_of_untracked (name : Text) : ∀ n, n ≤ stmts.length →
    (¬∃ i, LastWrite stmts name i n) → (stateAt stmts n).provenances.get? name = none := by
  refine forall_points stmts ?_ ?_
  · intro _
    rfl
  · intro n stmt hstmt ih hnone
    have hwrites : ¬WritesAt stmts name n := fun h =>
      hnone ⟨n, (lastWrite_succ_of_writesAt h).mpr rfl⟩
    simp only [lastWrite_succ_of_not_writesAt hwrites] at hnone
    have hunread : name ∉ (stateAt stmts n).readSet stmt := fun hread =>
      hnone (exists_lastWrite_of_mem_readSet (le_length_of_getElem? hstmt) hread)
    rw [stateAt_succ hstmt, State.get?_provenances_step,
      if_neg (mt (writesAt_iff hstmt).mpr hwrites), if_neg fun h => hunread h.2]
    exact ih hnone

/-- A variable has been written by the end when it is the target of a statement that writes. -/
theorem exists_lastWrite_length_iff {name : Text} :
    (∃ i, LastWrite stmts name i stmts.length) ↔
      ∃ stmt ∈ stmts, stmt.kind ≠ .assertion ∧ stmt.target = name ∧ name ≠ [] := by
  rw [exists_lastWrite_iff]
  constructor
  · rintro ⟨i, _, stmt, hstmt, hwrites, rfl⟩
    obtain ⟨htarget, hkind⟩ := Statement.writes_iff.mp hwrites
    exact ⟨stmt, List.mem_of_getElem? hstmt, hkind, rfl, htarget⟩
  · rintro ⟨stmt, hmem, hkind, rfl, htarget⟩
    obtain ⟨i, hi, rfl⟩ := List.mem_iff_getElem.mp hmem
    exact ⟨i, hi, stmts[i], List.getElem?_eq_getElem hi,
      Statement.writes_iff.mpr ⟨htarget, hkind⟩, rfl⟩

/-- **Exact provenance of a run.** A variable is tracked when some statement that is no assertion
has it as its target, and exactly then a provenance is recorded for it. Its sources are those of
the user inputs from which a chain of definitions and uses leads to its last write, each once. It
is tainted when there is one and untainted otherwise. -/
theorem run_provenance_exact (stmts : List Statement) (name : Text) :
    ((State.empty.run stmts).tracks name = true ↔
      ∃ stmt ∈ stmts, stmt.kind ≠ .assertion ∧ stmt.target = name ∧ name ≠ []) ∧
    ((State.empty.run stmts).provenances.get? name).isSome =
      (State.empty.run stmts).tracks name ∧
    (∀ source, source ∈ ((State.empty.run stmts).provenance name).sources ↔
      ∃ i j, StartsAt stmts source i ∧ Relation.ReflTransGen (DefUse stmts) i j ∧
        LastWrite stmts name j stmts.length) ∧
    (State.empty.run stmts).level name =
      (if ((State.empty.run stmts).provenance name).sources = [] then .untainted else .tainted) ∧
    ((State.empty.run stmts).provenance name).sources.Nodup := by
  have htracks := tracks_stateAt_iff name stmts.length le_rfl
  have hholds := holds_stateAt stmts.length le_rfl name
  have huntracked := get?_provenances_of_untracked name stmts.length le_rfl
  rw [stateAt_length] at htracks hholds huntracked
  refine ⟨htracks.trans exists_lastWrite_length_iff, ?_⟩
  by_cases hwritten : ∃ i, LastWrite stmts name i stmts.length
  · obtain ⟨j, hlast⟩ := hwritten
    have h := hholds j hlast
    refine ⟨by rw [h.recorded, htracks.mpr ⟨j, hlast⟩], fun source => ?_, h.level_eq, h.nodup⟩
    rw [h.mem_sources]
    constructor
    · rintro ⟨i, hstart, hchain⟩
      exact ⟨i, j, hstart, hchain, hlast⟩
    · rintro ⟨i, k, hstart, hchain, hlast'⟩
      obtain rfl := hlast.unique hlast'
      exact ⟨i, hstart, hchain⟩
  · have hnone := huntracked hwritten
    have hfalse : (State.empty.run stmts).tracks name = false := by
      rw [← Bool.not_eq_true, htracks]
      exact hwritten
    have hprovenance : (State.empty.run stmts).provenance name = .none := by
      rw [State.provenance, hnone, Option.getD_none]
    rw [hprovenance, State.level_of_not_tracks hfalse, hnone, hfalse]
    refine ⟨rfl, fun source => ?_, rfl, List.nodup_nil⟩
    constructor
    · intro h
      cases h
    · rintro ⟨_, j, _, _, hlast⟩
      exact absurd ⟨j, hlast⟩ hwritten

end Shortfall.Taint

import Mathlib.Logic.Relation
import Shortfall.Proofs.Taint.FlowViolation
import Shortfall.Proofs.Taint.SourceFlow

/-!
# Which flows into sinks are reported, and on whom

A statement that names a sink marks every variable it reads, and violations are read off the marks
that are left when the program ends. A mark sits on a variable, next to its sources, and shares
their fate. It is gone as soon as the variable is written again, be it by the marking statement
itself; and every value computed later from a tainted variable takes the mark over, whether or not
that value ever comes near the sink.

`Marked` tells from the positions of reads and writes who carries a mark at a point, and so how far
marks miss flows and how far they blame bystanders.

## Main results

* `marked_succ_of_writesAt`, `marked_succ_of_not_writesAt`: marks, one statement on.
* `mem_sinks_stateAt_iff`: at every point, the recorded sinks are the marks.
* `reported_iff`: the flows that a state reports.
-/

namespace Shortfall.Taint

/-- The statement at index `i` names the sink and reads `name`. -/
def SinksAt (stmts : List Statement) (sink : Sink) (name : Text) (i : Nat) : Prop :=
  ∃ stmt, stmts[i]? = some stmt ∧ stmt.sink ≠ [] ∧ stmt.sinkRef = sink ∧
    name ∈ (stateAt stmts i).readSet stmt

/-- What `name` holds behind the statement at index `i` is read later and flows, through any number
of definitions and uses, into what `heir` holds at `point`. -/
def FlowsInto (stmts : List Statement) (name : Text) (i : Nat) (heir : Text) (point : Nat) :
    Prop :=
  ∃ j k, i < j ∧ Untouched stmts name i j ∧ HandsOn stmts name j ∧
    Relation.ReflTransGen (DefUse stmts) j k ∧ LastWrite stmts heir k point

/-- `name` carries the mark of the sink at `point`: it was read there and has not been written
since, or a tainted variable read there has flowed into it. -/
def Marked (stmts : List Statement) (sink : Sink) (name : Text) (point : Nat) : Prop :=
  (∃ i, i < point ∧ SinksAt stmts sink name i ∧ Untouched stmts name i point) ∨
    ∃ i other, SinksAt stmts sink other i ∧ (stateAt stmts i).level other = .tainted ∧
      FlowsInto stmts other i name point

/-- The state reports a flow of tainted data into the sink. -/
def Reported (σ : State) (sink : Sink) : Prop :=
  ∃ violation ∈ σ.violations, violation.kind = .unsanitizedFlow ∧
    ∃ provenance, violation.provenance? = some provenance ∧ sink ∈ provenance.sinks

variable {stmts : List Statement} {sink : Sink}

/-! ## Levels between two points -/

private theorem tracks_of_tainted {σ : State} {name : Text} (h : σ.level name = .tainted) :
    σ.tracks name = true := by
  by_contra hnot
  rw [Bool.not_eq_true] at hnot
  rw [State.level_of_not_tracks hnot] at h
  exact absurd h (by decide)

theorem level_eq_of_untouched {name : Text} {i n : Nat} (hin : i ≤ n) (hn : n ≤ stmts.length)
    (h : Untouched stmts name i n) :
    (stateAt stmts n).level name = (stateAt stmts i).level name := by
  induction n, hin using Nat.le_induction with
  | base => rfl
  | succ n hin ih =>
      have hstmt := List.getElem?_eq_getElem hn
      have hwrites := mt (writesAt_iff hstmt).mpr (h n hin (by omega))
      rw [← ih (by omega) (h.mono le_rfl (by omega)), State.level, State.level,
        get?_levels_stateAt_succ hstmt, if_neg hwrites]

/-- A tainted value is tainted wherever it flows. -/
theorem FlowsInto.tainted {name heir : Text} {i point : Nat} (hpoint : point ≤ stmts.length)
    (htainted : (stateAt stmts i).level name = .tainted)
    (h : FlowsInto stmts name i heir point) : (stateAt stmts point).level heir = .tainted := by
  obtain ⟨j, k, hij, huntouched, hreads, hchain, hlast⟩ := h
  have hj : j ≤ stmts.length := by
    obtain ⟨stmt, hstmt, _⟩ := hreads
    exact le_length_of_getElem? hstmt
  have hi : i ≤ stmts.length := by omega
  obtain ⟨d, hwritten⟩ := (tracks_stateAt_iff name i hi).mp (tracks_of_tainted htainted)
  obtain ⟨source, start, hstart, hd⟩ := (holds_stateAt i hi name d hwritten).tainted_iff.mp htainted
  have huse : DefUse stmts d j := ⟨name, hwritten.extend huntouched (by omega), hreads⟩
  exact (holds_stateAt point hpoint heir k hlast).tainted_iff.mpr
    ⟨source, start, hstart, (hd.tail huse).trans hchain⟩

/-- A run knows no level between untainted and tainted. -/
theorem tainted_of_mem_readSet {name : Text} {n : Nat} {stmt : Statement}
    (hn : n ≤ stmts.length) (hread : name ∈ (stateAt stmts n).readSet stmt)
    (h : (stateAt stmts n).level name ≠ .untainted) : (stateAt stmts n).level name = .tainted := by
  obtain ⟨i, hlast⟩ := exists_lastWrite_of_mem_readSet hn hread
  have hholds := holds_stateAt n hn name i hlast
  exact hholds.tainted_iff.mpr (hholds.ne_untainted_iff.mp h)

/-! ## Marks, one statement on -/

theorem sinksAt_iff {n : Nat} {stmt : Statement} (h : stmts[n]? = some stmt) {name : Text} :
    SinksAt stmts sink name n ↔
      stmt.sink ≠ [] ∧ stmt.sinkRef = sink ∧ name ∈ (stateAt stmts n).readSet stmt := by
  simp only [SinksAt, h, Option.some.injEq, exists_eq_left']

/-- A variable that is not written keeps its marks and may get one more. -/
theorem marked_succ_of_not_writesAt {name : Text} {n : Nat} (hwrites : ¬WritesAt stmts name n) :
    Marked stmts sink name (n + 1) ↔ Marked stmts sink name n ∨ SinksAt stmts sink name n := by
  simp only [Marked, FlowsInto, lastWrite_succ_of_not_writesAt hwrites]
  constructor
  · rintro (⟨i, hi, hsinks, huntouched⟩ | hinherited)
    · rcases Nat.lt_succ_iff_lt_or_eq.mp hi with hlt | rfl
      · exact Or.inl (Or.inl ⟨i, hlt, hsinks, huntouched.mono le_rfl (by omega)⟩)
      · exact Or.inr hsinks
    · exact Or.inl (Or.inr hinherited)
  · rintro ((⟨i, hi, hsinks, huntouched⟩ | hinherited) | hsinks)
    · exact Or.inl ⟨i, by omega, hsinks, huntouched.succ hwrites⟩
    · exact Or.inr hinherited
    · have hnone : Untouched stmts name n n := fun k hk hlt => by omega
      exact Or.inl ⟨n, by omega, hsinks, hnone.succ hwrites⟩

/-- A variable that is written has the marks of the tainted variables it is computed from. -/
theorem marked_succ_of_writesAt {name : Text} {n : Nat} {stmt : Statement}
    (hstmt : stmts[n]? = some stmt) (hwrites : WritesAt stmts name n) :
    Marked stmts sink name (n + 1) ↔
      ∃ other ∈ (stateAt stmts n).readSet stmt,
        (stateAt stmts n).level other ≠ .untainted ∧ Marked stmts sink other n := by
  have hn := le_length_of_getElem? hstmt
  have hkind := (Statement.writes_iff.mp ((writesAt_iff hstmt).mp hwrites).1).2
  constructor
  · rintro (⟨i, hi, _, huntouched⟩ |
      ⟨i, source, hsinks, htainted, j, k, hij, huntouched, hreads, hchain, hlast⟩)
    · exact absurd hwrites (huntouched n (by omega) (by omega))
    · -- The chain ends at this very statement; its last link says what was read here.
      rw [lastWrite_succ_of_writesAt hwrites] at hlast
      subst hlast
      rcases hchain.cases_tail with rfl | ⟨c, hchain, other, hlast, hother⟩
      · have hread := ((handsOn_iff hstmt).mp hreads).2
        refine ⟨source, hread, ?_, Or.inl ⟨i, hij, hsinks, huntouched⟩⟩
        rw [level_eq_of_untouched (by omega) hn huntouched, htainted]
        decide
      · have hflows : FlowsInto stmts source i other k :=
          ⟨j, c, hij, huntouched, hreads, hchain, hlast⟩
        have hread := ((handsOn_iff hstmt).mp hother).2
        refine ⟨other, hread, ?_, Or.inr ⟨i, source, hsinks, htainted, hflows⟩⟩
        rw [hflows.tainted hn htainted]
        decide
  · rintro ⟨other, hread, hne, hmarked⟩
    have hreads : HandsOn stmts other n :=
      (handsOn_iff hstmt).mpr ⟨State.passesOn_of_mem_readSet hread hkind, hread⟩
    have hlast : LastWrite stmts name n (n + 1) := (lastWrite_succ_of_writesAt hwrites).mpr rfl
    rcases hmarked with ⟨i, hi, hsinks, huntouched⟩ |
      ⟨i, source, hsinks, htainted, j, k, hij, huntouched, hsource, hchain, hother⟩
    · have htainted := tainted_of_mem_readSet hn hread hne
      rw [level_eq_of_untouched (by omega) hn huntouched] at htainted
      exact Or.inr ⟨i, other, hsinks, htainted, n, n, hi, huntouched, hreads, .refl, hlast⟩
    · exact Or.inr ⟨i, source, hsinks, htainted, j, n, hij, huntouched, hsource,
        hchain.tail ⟨other, hother, hreads⟩, hlast⟩

/-- **At every point, the sinks recorded for a variable are the marks it carries.** -/
theorem mem_sinks_stateAt_iff : ∀ n, n ≤ stmts.length → ∀ name,
    sink ∈ ((stateAt stmts n).provenance name).sinks ↔ Marked stmts sink name n := by
  refine forall_points stmts ?_ ?_
  · intro name
    constructor
    · intro h
      cases h
    · rintro (⟨i, hi, _⟩ | ⟨_, _, _, _, _, _, _, _, _, _, hlast⟩)
      · exact absurd hi (Nat.not_lt_zero i)
      · exact absurd hlast.before (Nat.not_lt_zero _)
  · intro n stmt hstmt ih name
    have hget := State.get?_provenances_step (stateAt stmts n) stmt name
    rw [← stateAt_succ hstmt] at hget
    by_cases hwrites : WritesAt stmts name n
    · rw [if_pos ((writesAt_iff hstmt).mp hwrites)] at hget
      rw [State.provenance, hget, Option.getD_some, State.mem_sinks_writtenProvenance,
        marked_succ_of_writesAt hstmt hwrites]
      simp only [ih]
    · rw [if_neg (mt (writesAt_iff hstmt).mpr hwrites)] at hget
      rw [marked_succ_of_not_writesAt hwrites, ← ih name, sinksAt_iff hstmt, State.provenance, hget]
      split
      · next hsink =>
          rw [Option.getD_some, Provenance.mem_sinks_merge_sink]
          simp only [hsink, ne_eq, not_false_eq_true, and_true, true_and, eq_comm]
      · next hsink =>
          have hnone : ¬(stmt.sink ≠ [] ∧ stmt.sinkRef = sink ∧
              name ∈ (stateAt stmts n).readSet stmt) := fun h => hsink ⟨h.1, h.2.2⟩
          simp only [hnone, or_false]
          rfl

/-! ## Reports -/

/-- A flow is reported when a tainted variable has the sink in its record. -/
theorem reported_iff {σ : State} (hclamped : σ.Clamped) :
    Reported σ sink ↔ ∃ name, σ.level name = .tainted ∧ sink ∈ (σ.provenance name).sinks := by
  constructor
  · rintro ⟨violation, hmem, hkind, provenance, hprovenance, hsink⟩
    obtain ⟨name, recorded, first, rest, hentry, _, htainted, rfl⟩ :=
      State.mem_violations_flow_iff.mp ⟨hmem, hkind⟩
    cases hprovenance
    rw [Level.atLeast_tainted_iff, hclamped.clamp_level] at htainted
    exact ⟨name, htainted, by rwa [State.provenance, hentry]⟩
  · rintro ⟨name, htainted, hsink⟩
    rw [State.provenance] at hsink
    cases hentry : σ.provenances.get? name with
    | none =>
        rw [hentry] at hsink
        cases hsink
    | some provenance =>
        rw [hentry, Option.getD_some] at hsink
        obtain ⟨first, rest, hsinks⟩ := List.exists_cons_of_ne_nil (List.ne_nil_of_mem hsink)
        have hatLeast : (σ.level name).atLeast .tainted = true := by
          rw [htainted]
          decide
        obtain ⟨hmem, hkind⟩ := State.mem_violations_flow_iff.mpr
          ⟨name, provenance, first, rest, hentry, hsinks, hatLeast, rfl⟩
        exact ⟨_, hmem, hkind, provenance, rfl, hsink⟩

/-- **Which flows are reported.** A violation names the sink at the end of a run exactly when some
tainted variable was read there whose mark has lasted: the variable has not been written since, by
that statement or a later one, or its value has flowed into what some variable still holds. -/
theorem flow_reported_iff (stmts : List Statement) (sink : Sink) :
    Reported (State.empty.run stmts) sink ↔
      ∃ i name, SinksAt stmts sink name i ∧ (stateAt stmts i).level name = .tainted ∧
        (Untouched stmts name i stmts.length ∨
          ∃ heir, FlowsInto stmts name i heir stmts.length) := by
  rw [← stateAt_length, reported_iff (clamped_stateAt stmts _)]
  simp only [mem_sinks_stateAt_iff stmts.length le_rfl]
  constructor
  · rintro ⟨name, htainted, ⟨i, hi, hsinks, huntouched⟩ | ⟨i, other, hsinks, hlevel, hflows⟩⟩
    · rw [level_eq_of_untouched (by omega) le_rfl huntouched] at htainted
      exact ⟨i, name, hsinks, htainted, Or.inl huntouched⟩
    · exact ⟨i, other, hsinks, hlevel, Or.inr ⟨name, hflows⟩⟩
  · rintro ⟨i, name, hsinks, htainted, huntouched | ⟨heir, hflows⟩⟩
    · have hi : i < stmts.length := by
        obtain ⟨stmt, hstmt, _⟩ := hsinks
        exact (List.getElem?_eq_some_iff.mp hstmt).1
      refine ⟨name, ?_, Or.inl ⟨i, hi, hsinks, huntouched⟩⟩
      rw [level_eq_of_untouched (by omega) le_rfl huntouched, htainted]
    · exact ⟨heir, hflows.tainted le_rfl htainted, Or.inr ⟨i, name, hsinks, htainted, hflows⟩⟩

/-- User input goes into a shell and is cleaned only afterwards. -/
def cleanedTooLate : List Statement := [
  { kind := .userInput, target := "x", source := "user", line := 1 },
  { kind := .methodCall, method := "exec", args := ["x"], sink := "shell", line := 2 },
  { kind := .sanitizer, target := "x", line := 3 }]

/-- Writing a variable after it was tainted at a sink leaves no report of it. -/
theorem cleanedTooLate_unreported :
    SinksAt cleanedTooLate { name := "shell", kind := "methodCall", line := 2 } "x" 1 ∧
      (stateAt cleanedTooLate 1).level "x" = .tainted ∧
      ¬Reported (State.empty.run cleanedTooLate)
        { name := "shell", kind := "methodCall", line := 2 } := by
  refine ⟨⟨_, rfl, by decide, by decide, by decide +kernel⟩, by decide +kernel, ?_⟩
  rintro ⟨violation, hmem, _⟩
  have hnone : (State.empty.run cleanedTooLate).violations = [] := by decide +kernel
  rw [hnone] at hmem
  cases hmem

/-- **Who carries a sink at the end of a run.** A variable that a statement read at the sink and
that has not been written since, and a variable into whose value a tainted variable has flowed
after such a read. -/
theorem mem_sinks_run_iff (stmts : List Statement) (sink : Sink) (name : Text) :
    sink ∈ ((State.empty.run stmts).provenance name).sinks ↔
      (∃ i, SinksAt stmts sink name i ∧ Untouched stmts name i stmts.length) ∨
        ∃ i other, SinksAt stmts sink other i ∧ (stateAt stmts i).level other = .tainted ∧
          FlowsInto stmts other i name stmts.length := by
  rw [← stateAt_length, mem_sinks_stateAt_iff stmts.length le_rfl]
  refine or_congr_left ⟨?_, ?_⟩
  · rintro ⟨i, _, hsinks, huntouched⟩
    exact ⟨i, hsinks, huntouched⟩
  · rintro ⟨i, ⟨stmt, hstmt, hsinks⟩, huntouched⟩
    exact ⟨i, (List.getElem?_eq_some_iff.mp hstmt).1, ⟨stmt, hstmt, hsinks⟩, huntouched⟩

/-- User input goes into a shell and is copied afterwards. -/
def copiedAfterSink : List Statement := [
  { kind := .userInput, target := "x", source := "user", line := 1 },
  { kind := .methodCall, method := "exec", args := ["x"], sink := "shell", line := 2 },
  { kind := .assignment, target := "y", expression := "x", line := 3 }]

/-- A copy is recorded at a sink that no statement has read it for. -/
theorem copiedAfterSink_marks_copy :
    { name := "shell", kind := "methodCall", line := 2 } ∈
        ((State.empty.run copiedAfterSink).provenance "y").sinks ∧
      ∀ i, ¬SinksAt copiedAfterSink { name := "shell", kind := "methodCall", line := 2 } "y" i := by
  refine ⟨by decide +kernel, ?_⟩
  rintro i ⟨stmt, hstmt, hsink, _, hread⟩
  match i with
  | 0 => cases hstmt; exact hsink rfl
  | 1 => cases hstmt; revert hread; decide +kernel
  | 2 => cases hstmt; exact hsink rfl
  | i + 3 => cases hstmt

end Shortfall.Taint

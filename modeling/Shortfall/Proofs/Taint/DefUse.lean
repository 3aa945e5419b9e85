import Mathlib.Logic.Relation
import Shortfall.Proofs.Taint.Step

/-!
# Definitions and uses in a program

A run keeps one state and overwrites it statement by statement. Where a value came from is said
here without a state, by positions in the program: which statement wrote a variable last, and which
later statements compute something from that value before it is overwritten. The only thing taken
from the run is which variables a statement reads, since a dotted name stands for whatever leading
part of it is tracked at that moment.

A *point* `n` lies before the statement at index `n`; the last point is the length of the program.

## Main results

* `lastWrite_succ_of_writesAt`, `lastWrite_succ_of_not_writesAt`: last writes, one statement on.
* `tracks_stateAt_iff`: the tracked variables at a point are those written before it.
-/

namespace Shortfall.Taint

/-- The state before the statement at index `point`. -/
def stateAt (stmts : List Statement) (point : Nat) : State :=
  State.empty.run (stmts.take point)

/-- The statement at index `i` writes `name`. -/
def WritesAt (stmts : List Statement) (name : Text) (i : Nat) : Prop :=
  ∃ stmt, stmts[i]? = some stmt ∧ stmt.writes = true ∧ name = stmt.target

/-- No statement from index `start` on and before `point` writes `name`. -/
def Untouched (stmts : List Statement) (name : Text) (start point : Nat) : Prop :=
  ∀ i, start ≤ i → i < point → ¬WritesAt stmts name i

/-- The value of `name` at `point` was written by the statement at index `i`. -/
structure LastWrite (stmts : List Statement) (name : Text) (i point : Nat) : Prop where
  before : i < point
  writes : WritesAt stmts name i
  untouched : Untouched stmts name (i + 1) point

/-- The statement at index `j` computes its result from `name`, among others. -/
def HandsOn (stmts : List Statement) (name : Text) (j : Nat) : Prop :=
  ∃ stmt, stmts[j]? = some stmt ∧ stmt.passesOn = true ∧
    name ∈ (stateAt stmts j).readSet stmt

/-- The statement at index `j` computes its result from what the one at `i` has written. -/
def DefUse (stmts : List Statement) (i j : Nat) : Prop :=
  ∃ name, LastWrite stmts name i j ∧ HandsOn stmts name j

variable {stmts : List Statement}

/-! ## States along a program -/

theorem stateAt_succ {n : Nat} {stmt : Statement} (h : stmts[n]? = some stmt) :
    stateAt stmts (n + 1) = (stateAt stmts n).step stmt := by
  rw [stateAt, List.take_add_one, h, State.run, List.foldl_append]
  rfl

theorem stateAt_length (stmts : List Statement) :
    stateAt stmts stmts.length = State.empty.run stmts := by
  rw [stateAt, List.take_length]

/-- What holds before the first statement and is kept by each holds at every point. -/
theorem forall_points (stmts : List Statement) {P : Nat → Prop} (start : P 0)
    (step : ∀ n stmt, stmts[n]? = some stmt → P n → P (n + 1)) :
    ∀ n, n ≤ stmts.length → P n := by
  intro n
  induction n with
  | zero => intro _; exact start
  | succ n ih =>
      intro hn
      exact step n stmts[n] (List.getElem?_eq_getElem hn) (ih (by omega))

theorem le_length_of_getElem? {n : Nat} {stmt : Statement} (h : stmts[n]? = some stmt) :
    n ≤ stmts.length := by
  obtain ⟨hlt, _⟩ := List.getElem?_eq_some_iff.mp h
  omega

theorem clamped_stateAt (stmts : List Statement) (n : Nat) : (stateAt stmts n).Clamped := by
  apply State.Clamped.run
  intro name level hget
  cases hget

theorem get?_levels_stateAt_succ {n : Nat} {stmt : Statement} (h : stmts[n]? = some stmt)
    (name : Text) :
    (stateAt stmts (n + 1)).levels.get? name =
      if stmt.writes = true ∧ name = stmt.target then
        some ((stateAt stmts n).outLevel stmt .untainted)
      else (stateAt stmts n).levels.get? name := by
  rw [stateAt_succ h, State.get?_levels_step (clamped_stateAt stmts n)]

/-! ## Last writes -/

theorem writesAt_iff {n : Nat} {stmt : Statement} (h : stmts[n]? = some stmt) {name : Text} :
    WritesAt stmts name n ↔ stmt.writes = true ∧ name = stmt.target := by
  simp only [WritesAt, h, Option.some.injEq, exists_eq_left']

theorem handsOn_iff {n : Nat} {stmt : Statement} (h : stmts[n]? = some stmt) {name : Text} :
    HandsOn stmts name n ↔ stmt.passesOn = true ∧ name ∈ (stateAt stmts n).readSet stmt := by
  simp only [HandsOn, h, Option.some.injEq, exists_eq_left']

theorem Untouched.succ {name : Text} {start n : Nat} (h : Untouched stmts name start n)
    (hn : ¬WritesAt stmts name n) : Untouched stmts name start (n + 1) := by
  intro i hstart hi
  rcases Nat.lt_succ_iff_lt_or_eq.mp hi with hi | rfl
  · exact h i hstart hi
  · exact hn

theorem Untouched.mono {name : Text} {start later n m : Nat} (h : Untouched stmts name start n)
    (hstart : start ≤ later) (hm : m ≤ n) : Untouched stmts name later m :=
  fun i hi hlt => h i (hstart.trans hi) (hlt.trans_le hm)

theorem lastWrite_succ_of_writesAt {name : Text} {i n : Nat} (hn : WritesAt stmts name n) :
    LastWrite stmts name i (n + 1) ↔ i = n := by
  constructor
  · intro h
    by_contra hne
    have hlt := h.before
    exact h.untouched n (by omega) (by omega) hn
  · rintro rfl
    exact ⟨by omega, hn, fun k hk hlt => by omega⟩

theorem lastWrite_succ_of_not_writesAt {name : Text} {i n : Nat}
    (hn : ¬WritesAt stmts name n) :
    LastWrite stmts name i (n + 1) ↔ LastWrite stmts name i n := by
  constructor
  · intro h
    have hne : i ≠ n := by
      rintro rfl
      exact hn h.writes
    have hlt := h.before
    exact ⟨by omega, h.writes, h.untouched.mono le_rfl (by omega)⟩
  · intro h
    exact ⟨by have := h.before; omega, h.writes, h.untouched.succ hn⟩

theorem LastWrite.unique {name : Text} {i j n : Nat} (hi : LastWrite stmts name i n)
    (hj : LastWrite stmts name j n) : i = j := by
  rcases Nat.lt_trichotomy i j with hlt | heq | hgt
  · exact absurd hj.writes (hi.untouched j hlt hj.before)
  · exact heq
  · exact absurd hi.writes (hj.untouched i hgt hi.before)

/-- A value stays where it was written as long as nothing writes there. -/
theorem LastWrite.extend {name : Text} {i n m : Nat} (h : LastWrite stmts name i n)
    (hkept : Untouched stmts name n m) (hnm : n ≤ m) : LastWrite stmts name i m := by
  refine ⟨h.before.trans_le hnm, h.writes, fun k hk hlt => ?_⟩
  rcases Nat.lt_or_ge k n with hkn | hkn
  · exact h.untouched k hk hkn
  · exact hkept k hkn hlt

/-- Among the writes before a point there is a last one. -/
theorem exists_lastWrite_iff {name : Text} (n : Nat) :
    (∃ i, LastWrite stmts name i n) ↔ ∃ i, i < n ∧ WritesAt stmts name i := by
  induction n with
  | zero =>
      constructor
      · rintro ⟨i, hlast⟩
        exact ⟨i, hlast.before, hlast.writes⟩
      · rintro ⟨i, hi, _⟩
        exact absurd hi (Nat.not_lt_zero i)
  | succ n ih =>
      by_cases hn : WritesAt stmts name n
      · simp only [lastWrite_succ_of_writesAt hn, exists_eq, true_iff]
        exact ⟨n, by omega, hn⟩
      · simp only [lastWrite_succ_of_not_writesAt hn, ih]
        constructor
        · rintro ⟨i, hi, hwrites⟩
          exact ⟨i, by omega, hwrites⟩
        · rintro ⟨i, hi, hwrites⟩
          have hne : i ≠ n := by
            rintro rfl
            exact hn hwrites
          exact ⟨i, by omega, hwrites⟩

/-- A variable is tracked at a point when a statement before it has written the variable. -/
theorem tracks_stateAt_iff (name : Text) : ∀ n, n ≤ stmts.length →
    ((stateAt stmts n).tracks name = true ↔ ∃ i, LastWrite stmts name i n) := by
  refine forall_points stmts ?_ ?_
  · constructor
    · intro h
      cases h
    · rintro ⟨i, hi⟩
      exact absurd hi.before (Nat.not_lt_zero i)
  · intro n stmt hstmt ih
    rw [State.tracks_iff] at ih ⊢
    rw [get?_levels_stateAt_succ hstmt]
    by_cases hwrites : WritesAt stmts name n
    · rw [if_pos ((writesAt_iff hstmt).mp hwrites)]
      simp [lastWrite_succ_of_writesAt hwrites]
    · rw [if_neg (mt (writesAt_iff hstmt).mpr hwrites)]
      simp only [lastWrite_succ_of_not_writesAt hwrites]
      exact ih

/-- Whoever is read has been written before. -/
theorem exists_lastWrite_of_mem_readSet {name : Text} {n : Nat} {stmt : Statement}
    (hn : n ≤ stmts.length) (h : name ∈ (stateAt stmts n).readSet stmt) :
    ∃ i, LastWrite stmts name i n :=
  (tracks_stateAt_iff name n hn).mp (State.tracks_of_mem_readSet h)

end Shortfall.Taint

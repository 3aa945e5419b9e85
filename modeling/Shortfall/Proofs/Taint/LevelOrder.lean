import Mathlib.Data.Int.Order.Basic
import Mathlib.Order.MinMax
import Shortfall.Taint.Level

/-!
# The order of taint levels

A level is carried as a rank that may lie outside the chain, and every operation clamps first. So
the order is best read off ranks: `join` is the maximum of the clamped ranks, and the join of a
list is the least clamped rank above all of its members (`rank_joinAll_le_iff`). That one
universal property gives what the analysis needs of `joinAll`: it depends on the members alone,
and it is one of the two ends exactly when the members say so.
-/

namespace Shortfall.Taint.Level

theorem eq_of_rank_eq {a b : Level} (h : a.rank = b.rank) : a = b := by
  cases a
  cases b
  exact congrArg Level.mk h

theorem rank_clamp (level : Level) : level.clamp.rank = max 0 (min level.rank 2) := by
  unfold clamp
  split
  · next h => simp only [untainted] at h ⊢; omega
  · split
    · next h => simp only [tainted] at h ⊢; omega
    · next hlow hhigh => simp only [untainted, tainted] at hlow hhigh; omega

theorem rank_clamp_le {a b : Level} (h : a.rank ≤ b.rank) : a.clamp.rank ≤ b.clamp.rank := by
  rw [rank_clamp, rank_clamp]
  omega

@[simp] theorem clamp_clamp (level : Level) : level.clamp.clamp = level.clamp := by
  apply eq_of_rank_eq
  simp only [rank_clamp]
  omega

@[simp] theorem clamp_untainted : untainted.clamp = untainted := by decide

@[simp] theorem clamp_tainted : tainted.clamp = tainted := by decide

/-- The points of the chain are the three levels with a name. -/
theorem eq_of_clamp_eq_self {level : Level} (h : level.clamp = level) :
    level = untainted ∨ level = possiblyTainted ∨ level = tainted := by
  have hrank := rank_clamp level
  rw [h] at hrank
  have hcases : level.rank = 0 ∨ level.rank = 1 ∨ level.rank = 2 := by omega
  rcases hcases with hzero | hone | htwo
  · exact Or.inl (eq_of_rank_eq hzero)
  · exact Or.inr (Or.inl (eq_of_rank_eq hone))
  · exact Or.inr (Or.inr (eq_of_rank_eq htwo))

theorem rank_join (a b : Level) : (a.join b).rank = max a.clamp.rank b.clamp.rank := by
  unfold join
  split <;> omega

@[simp] theorem clamp_join (a b : Level) : (a.join b).clamp = a.join b := by
  unfold join
  split <;> exact clamp_clamp _

@[simp] theorem clamp_join_left (a b : Level) : a.clamp.join b = a.join b := by
  simp only [join, clamp_clamp]

@[simp] theorem untainted_join (level : Level) : untainted.join level = level.clamp := by
  apply eq_of_rank_eq
  rw [rank_join, rank_clamp level, clamp_untainted]
  simp only [untainted]
  omega

theorem join_assoc (a b c : Level) : (a.join b).join c = a.join (b.join c) := by
  apply eq_of_rank_eq
  rw [rank_join, clamp_join, rank_join, rank_join, clamp_join, rank_join]
  omega

/-! ## Joins of lists -/

@[simp] theorem joinAll_nil : joinAll [] = untainted := rfl

private theorem foldl_join (start : Level) (levels : List Level) :
    levels.foldl join start.clamp = start.join (joinAll levels) := by
  induction levels generalizing start with
  | nil =>
      apply eq_of_rank_eq
      rw [joinAll_nil, rank_join, clamp_untainted, List.foldl_nil, rank_clamp]
      simp only [untainted]
      omega
  | cons level rest ih =>
      have htail : joinAll (level :: rest) = level.join (joinAll rest) := by
        rw [joinAll, List.foldl_cons, untainted_join, ih level]
      rw [List.foldl_cons, clamp_join_left, ← clamp_join, ih, htail, join_assoc]

@[simp] theorem joinAll_cons (level : Level) (levels : List Level) :
    joinAll (level :: levels) = level.join (joinAll levels) := by
  rw [joinAll, List.foldl_cons, untainted_join, foldl_join]

@[simp] theorem clamp_joinAll (levels : List Level) : (joinAll levels).clamp = joinAll levels := by
  cases levels with
  | nil => exact clamp_untainted
  | cons level rest => rw [joinAll_cons, clamp_join]

theorem joinAll_append (front back : List Level) :
    joinAll (front ++ back) = (joinAll front).join (joinAll back) := by
  induction front with
  | nil => rw [List.nil_append, joinAll_nil, untainted_join, clamp_joinAll]
  | cons level rest ih => rw [List.cons_append, joinAll_cons, joinAll_cons, ih, join_assoc]

/-- **The join of a list is its least upper bound**, by rank. -/
theorem rank_joinAll_le_iff {levels : List Level} {bound : Int} :
    (joinAll levels).rank ≤ bound ↔ 0 ≤ bound ∧ ∀ level ∈ levels, level.clamp.rank ≤ bound := by
  induction levels with
  | nil => simp [untainted]
  | cons level rest ih =>
      rw [joinAll_cons, rank_join, clamp_joinAll, max_le_iff, ih]
      simp only [List.forall_mem_cons, and_left_comm]

/-- Raising the members of a list raises its join. -/
theorem rank_joinAll_map_le {α : Type} {f g : α → Level} {xs : List α}
    (h : ∀ x ∈ xs, (f x).rank ≤ (g x).rank) :
    (joinAll (xs.map f)).rank ≤ (joinAll (xs.map g)).rank := by
  have hupper := rank_joinAll_le_iff.mp (le_refl (joinAll (xs.map g)).rank)
  refine rank_joinAll_le_iff.mpr ⟨hupper.1, ?_⟩
  simp only [List.forall_mem_map]
  intro x hx
  exact (rank_clamp_le (h x hx)).trans (hupper.2 _ (List.mem_map_of_mem hx))

/-- The join of a list depends on its members alone. -/
theorem joinAll_eq_of_mem_iff {levels others : List Level}
    (h : ∀ level, level ∈ levels ↔ level ∈ others) : joinAll levels = joinAll others := by
  apply eq_of_rank_eq
  apply le_antisymm
  · refine rank_joinAll_le_iff.mpr ?_
    have hothers := rank_joinAll_le_iff.mp (le_refl (joinAll others).rank)
    exact ⟨hothers.1, fun level hlevel => hothers.2 level ((h level).mp hlevel)⟩
  · refine rank_joinAll_le_iff.mpr ?_
    have hlevels := rank_joinAll_le_iff.mp (le_refl (joinAll levels).rank)
    exact ⟨hlevels.1, fun level hlevel => hlevels.2 level ((h level).mpr hlevel)⟩

theorem clamp_eq_untainted_iff {level : Level} :
    level.clamp = untainted ↔ level.clamp.rank ≤ 0 := by
  constructor
  · intro h
    rw [h]
    exact le_refl _
  · intro h
    apply eq_of_rank_eq
    have hrank := rank_clamp level
    simp only [untainted]
    omega

theorem clamp_eq_tainted_iff {level : Level} : level.clamp = tainted ↔ 1 < level.clamp.rank := by
  constructor
  · intro h
    rw [h]
    decide
  · intro h
    apply eq_of_rank_eq
    have hrank := rank_clamp level
    simp only [tainted]
    omega

/-- A level above one that is not untainted is not untainted. -/
theorem ne_untainted_of_rank_le {a b : Level} (ha : a.clamp = a) (h : a.rank ≤ b.rank)
    (hne : a ≠ untainted) : b ≠ untainted := by
  rintro rfl
  have hzero : a.clamp.rank ≤ 0 := by
    rw [ha]
    exact h
  exact hne (by rw [← ha, clamp_eq_untainted_iff.mpr hzero])

/-- A level of the chain above tainted is tainted. -/
theorem eq_tainted_of_rank_le {a : Level} (ha : a.clamp = a) (h : tainted.rank ≤ a.rank) :
    a = tainted := by
  rw [← ha, clamp_eq_tainted_iff, ha]
  simp only [tainted] at h
  omega

theorem joinAll_eq_untainted_iff {levels : List Level} :
    joinAll levels = untainted ↔ ∀ level ∈ levels, level.clamp = untainted := by
  rw [← clamp_joinAll, clamp_eq_untainted_iff, clamp_joinAll, rank_joinAll_le_iff]
  simp only [clamp_eq_untainted_iff, le_refl, true_and]

theorem joinAll_eq_tainted_iff {levels : List Level} :
    joinAll levels = tainted ↔ ∃ level ∈ levels, level.clamp = tainted := by
  rw [← clamp_joinAll, clamp_eq_tainted_iff, clamp_joinAll, ← not_le, rank_joinAll_le_iff]
  simp [clamp_eq_tainted_iff]

theorem atLeast_tainted_iff {level : Level} :
    level.atLeast .tainted = true ↔ level.clamp = tainted := by
  rw [atLeast, clamp_tainted, decide_eq_true_iff, clamp_eq_tainted_iff]
  simp only [tainted]
  omega

end Shortfall.Taint.Level

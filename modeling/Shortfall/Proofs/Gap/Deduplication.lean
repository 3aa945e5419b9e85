import Mathlib.Data.List.Basic
import Mathlib.Data.List.Nodup
import Shortfall.Gap.Result

/-!
# Deduplication

`firstOfEachKey` goes through the gaps once and carries the keys that it has met. To have met some
keys before means to lose the gaps with these keys and no others (`firstOfEachKey_eq_filter`), so
the loop can be told without what it carries: the first gap is kept, and the later ones with its key
are dropped (`deduplicate_cons`). Everything else about the loop is an induction along this equation
or a fact about `List.filter`; in particular a list of gaps can be taken apart anywhere
(`deduplicate_append_filter`, `firstOfEachKey_append`).

## Main results

* `deduplicate_append`, `deduplicate_prefix_append`: gaps behind others.
* `mem_map_key_deduplicate`, `exists_mem_deduplicate_append`: no key is lost.
* `deduplicate_keeps_first`: the gaps that are kept are the first occurrences.
-/

namespace Shortfall.Gap

/-- Keys that were met before cost a list of gaps those with such a key. -/
theorem firstOfEachKey_eq_filter (seen : List (Text × Text × Text)) (gaps : List SecurityGap) :
    firstOfEachKey seen gaps = (deduplicate gaps).filter (·.key ∉ seen) := by
  induction gaps generalizing seen with
  | nil => rfl
  | cons gap rest ih =>
      have hfirst : deduplicate (gap :: rest) =
          gap :: (deduplicate rest).filter (·.key ∉ [gap.key]) := by
        rw [deduplicate, firstOfEachKey, if_neg List.not_mem_nil, ih]
      rw [firstOfEachKey, hfirst, List.filter_cons, List.filter_filter]
      by_cases hseen : gap.key ∈ seen
      · rw [if_pos hseen, ih, if_neg (by simpa using hseen)]
        -- Whatever has the key of `gap` has a key that was met before.
        apply List.filter_congr
        intro other _
        grind
      · rw [if_neg hseen, ih, if_pos (by simpa using hseen)]
        congr 1
        apply List.filter_congr
        intro other _
        grind

/-- The first gap is kept, and the later ones with its key are dropped. -/
theorem deduplicate_cons (gap : SecurityGap) (rest : List SecurityGap) :
    deduplicate (gap :: rest) = gap :: (deduplicate rest).filter (·.key ≠ gap.key) := by
  rw [deduplicate, firstOfEachKey, if_neg List.not_mem_nil, firstOfEachKey_eq_filter]
  simp only [List.mem_singleton]

/-! ## Gaps behind others -/

theorem deduplicate_append_filter (front back : List SecurityGap) :
    deduplicate (front ++ back) =
      deduplicate front ++ (deduplicate back).filter (·.key ∉ front.map SecurityGap.key) := by
  induction front with
  | nil => simp [deduplicate, firstOfEachKey]
  | cons gap rest ih =>
      rw [List.cons_append, deduplicate_cons, deduplicate_cons, ih, List.filter_append,
        List.filter_filter, List.cons_append]
      simp only [List.map_cons, List.mem_cons, not_or, Bool.decide_and]

theorem firstOfEachKey_append (seen : List (Text × Text × Text)) (front back : List SecurityGap) :
    firstOfEachKey seen (front ++ back) =
      firstOfEachKey seen front ++ firstOfEachKey (front.map SecurityGap.key ++ seen) back := by
  simp only [firstOfEachKey_eq_filter]
  rw [deduplicate_append_filter, List.filter_append, List.filter_filter]
  simp only [List.mem_append, not_or, Bool.decide_and, Bool.and_comm]

/-- Gaps that come later leave those before them as they are. -/
theorem deduplicate_prefix_append (front back : List SecurityGap) :
    deduplicate front <+: deduplicate (front ++ back) := by
  rw [deduplicate_append_filter]
  exact List.prefix_append _ _

/-! ## What is kept -/

theorem deduplicate_sublist (gaps : List SecurityGap) : (deduplicate gaps).Sublist gaps := by
  induction gaps with
  | nil => exact List.Sublist.refl []
  | cons gap rest ih =>
      rw [deduplicate_cons]
      exact (List.filter_sublist.trans ih).cons_cons gap

theorem mem_of_mem_deduplicate {gaps : List SecurityGap} {gap : SecurityGap}
    (h : gap ∈ deduplicate gaps) : gap ∈ gaps :=
  (deduplicate_sublist gaps).subset h

theorem mem_of_mem_firstOfEachKey {seen : List (Text × Text × Text)} {gaps : List SecurityGap}
    {gap : SecurityGap} (h : gap ∈ firstOfEachKey seen gaps) : gap ∈ gaps := by
  rw [firstOfEachKey_eq_filter] at h
  exact mem_of_mem_deduplicate (List.mem_of_mem_filter h)

/-- Gaps whose keys were all met before leave no trace. -/
theorem firstOfEachKey_eq_nil {seen : List (Text × Text × Text)} {gaps : List SecurityGap}
    (h : ∀ gap ∈ gaps, gap.key ∈ seen) : firstOfEachKey seen gaps = [] := by
  rw [firstOfEachKey_eq_filter, List.filter_eq_nil_iff]
  intro gap hgap
  simpa using h gap (mem_of_mem_deduplicate hgap)

theorem firstOfEachKey_append_of_key_mem {seen : List (Text × Text × Text)}
    {front : List SecurityGap} (h : ∀ gap ∈ front, gap.key ∈ seen) (back : List SecurityGap) :
    firstOfEachKey seen (front ++ back) = firstOfEachKey seen back := by
  rw [firstOfEachKey_append, firstOfEachKey_eq_nil h, List.nil_append, firstOfEachKey_eq_filter,
    firstOfEachKey_eq_filter]
  apply List.filter_congr
  intro gap _
  have hkeys : gap.key ∈ front.map SecurityGap.key → gap.key ∈ seen := by
    intro hmem
    obtain ⟨other, hother, hkey⟩ := List.mem_map.mp hmem
    exact hkey ▸ h other hother
  grind

/-- The gaps that are kept are those that come first among the gaps with their key. -/
theorem mem_deduplicate_iff {gaps : List SecurityGap} {gap : SecurityGap} :
    gap ∈ deduplicate gaps ↔ gaps.find? (·.key = gap.key) = some gap := by
  induction gaps with
  | nil => simp [deduplicate, firstOfEachKey]
  | cons head rest ih =>
      rw [deduplicate_cons, List.mem_cons, List.mem_filter, ih, List.find?_cons]
      by_cases hkey : head.key = gap.key
      · simp [hkey, eq_comm]
      · have hne : gap ≠ head := fun heq => hkey (heq ▸ rfl)
        have hkey' : gap.key ≠ head.key := fun heq => hkey heq.symm
        simp [hkey, hkey', hne]

/-- Whatever comes behind some gaps, each of them is kept, or one of them with the same key is. -/
theorem exists_mem_deduplicate_append {front : List SecurityGap} {gap : SecurityGap}
    (h : gap ∈ front) (back : List SecurityGap) :
    ∃ kept ∈ deduplicate (front ++ back), kept ∈ front ∧ kept.key = gap.key := by
  have hsome : (front.find? (·.key = gap.key)).isSome = true :=
    List.find?_isSome.mpr ⟨gap, h, decide_eq_true rfl⟩
  obtain ⟨kept, hfind⟩ := Option.isSome_iff_exists.mp hsome
  have hkey : kept.key = gap.key := by simpa using List.find?_some hfind
  have hkept : kept ∈ deduplicate front := by
    rw [mem_deduplicate_iff, hkey]
    exact hfind
  exact ⟨kept, (deduplicate_prefix_append front back).subset hkept,
    mem_of_mem_deduplicate hkept, hkey⟩

theorem mem_map_key_deduplicate (gaps : List SecurityGap) (key : Text × Text × Text) :
    key ∈ (deduplicate gaps).map SecurityGap.key ↔ key ∈ gaps.map SecurityGap.key := by
  simp only [List.mem_map]
  constructor
  · rintro ⟨gap, hgap, hkey⟩
    exact ⟨gap, mem_of_mem_deduplicate hgap, hkey⟩
  · rintro ⟨gap, hgap, rfl⟩
    obtain ⟨kept, hkept, _, hkey⟩ := exists_mem_deduplicate_append hgap []
    exact ⟨kept, by rwa [List.append_nil] at hkept, hkey⟩

/-- Behind some gaps only those with a new key are kept. -/
theorem deduplicate_append (front back : List SecurityGap) :
    deduplicate (front ++ back) =
      deduplicate front ++ firstOfEachKey ((deduplicate front).map SecurityGap.key) back := by
  rw [deduplicate_append_filter, firstOfEachKey_eq_filter]
  simp only [mem_map_key_deduplicate]

theorem nodup_map_key_deduplicate (gaps : List SecurityGap) :
    ((deduplicate gaps).map SecurityGap.key).Nodup := by
  induction gaps with
  | nil => exact List.nodup_nil
  | cons gap rest ih =>
      rw [deduplicate_cons, List.map_cons, List.nodup_cons]
      refine ⟨?_, ih.sublist (List.filter_sublist.map _)⟩
      intro hmem
      obtain ⟨other, hother, hkey⟩ := List.mem_map.mp hmem
      exact of_decide_eq_true (List.mem_filter.mp hother).2 hkey

theorem deduplicate_eq_self {gaps : List SecurityGap} (h : (gaps.map SecurityGap.key).Nodup) :
    deduplicate gaps = gaps := by
  induction gaps with
  | nil => rfl
  | cons gap rest ih =>
      obtain ⟨hnew, hrest⟩ := List.nodup_cons.mp h
      rw [deduplicate_cons, ih hrest, List.filter_eq_self.mpr]
      intro other hother
      exact decide_eq_true fun hkey => hnew (hkey ▸ List.mem_map_of_mem hother)

/-- **Deduplication keeps exactly the first occurrences.** The gaps that are kept stand in the order
in which they came, no two of them with one key. They are, as they came, those that are first among
the gaps with their key, so every key is still there. Deduplicating again changes nothing; and of
gaps behind others it keeps what it would keep of them alone, less those with a key of the
others. -/
theorem deduplicate_keeps_first (gaps more : List SecurityGap) :
    (deduplicate gaps).Sublist gaps ∧
    ((deduplicate gaps).map SecurityGap.key).Nodup ∧
    (∀ key, key ∈ (deduplicate gaps).map SecurityGap.key ↔ key ∈ gaps.map SecurityGap.key) ∧
    (∀ gap, gap ∈ deduplicate gaps ↔ gaps.find? (·.key = gap.key) = some gap) ∧
    deduplicate (deduplicate gaps) = deduplicate gaps ∧
    deduplicate (gaps ++ more) =
      deduplicate gaps ++ (deduplicate more).filter (·.key ∉ gaps.map SecurityGap.key) :=
  ⟨deduplicate_sublist gaps, nodup_map_key_deduplicate gaps, mem_map_key_deduplicate gaps,
    fun _ => mem_deduplicate_iff, deduplicate_eq_self (nodup_map_key_deduplicate gaps),
    deduplicate_append_filter gaps more⟩

end Shortfall.Gap

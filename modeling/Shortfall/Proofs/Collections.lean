import Mathlib.Data.List.Sort
import Shortfall.Distinct
import Shortfall.NameMap

/-!
# Sets in disguise

Names read, sources and sinks are all sets to the analysis and lists to the program: an ascending
list of names, a list that is only ever appended to with `appendNew`, a map kept as ascending
entries. The proofs about the analysis speak of membership and look-up. This module says what each
list operation does to those two views, and that an ascending list is determined by its members.

## Main results

* `Ascends.eq_of_mem_iff`: ascending lists with the same members are equal.
* `mem_insertNames`, `ascends_insertNames`: adding names is a union, and keeps the order.
* `mem_appendNew`, `nodup_appendNew`: appending what is new is a union without repetition.
* `NameMap.mem_entries_iff`, `NameMap.eq_of_get?_eq`: a map is what look-up finds in it.
* `NameMap.ofList_entries`: a map filled with the entries of another is equal to it.
-/

namespace Shortfall

/-! ## Ascending names -/

/-- Names in strictly ascending order. -/
def Ascends (names : List Text) : Prop := names.Pairwise (· < ·)

theorem Ascends.eq_of_mem_iff {names others : List Text} (hnames : Ascends names)
    (hothers : Ascends others) (hmem : ∀ name, name ∈ names ↔ name ∈ others) :
    names = others :=
  List.Pairwise.eq_of_mem_iff hnames hothers hmem

private theorem ascends_insertName (name : Text) {names : List Text} (h : Ascends names) :
    Ascends (insertName name names) := by
  induction names with
  | nil => simp [Ascends, insertName]
  | cons head rest ih =>
      obtain ⟨hhead, hrest⟩ := List.pairwise_cons.mp h
      simp only [insertName]
      split
      · next hlt =>
          refine List.pairwise_cons.mpr ⟨fun other hother => ?_, h⟩
          rcases List.mem_cons.mp hother with rfl | hother
          · exact hlt
          · exact List.lt_trans hlt (hhead other hother)
      · split
        · exact h
        · next hnlt hne =>
            refine List.pairwise_cons.mpr ⟨fun other hother => ?_, ih hrest⟩
            rcases mem_insertName.mp hother with rfl | hother
            · grind
            · exact hhead other hother

@[simp] theorem mem_insertNames {name : Text} {added names : List Text} :
    name ∈ insertNames added names ↔ name ∈ added ∨ name ∈ names := by
  induction added with
  | nil => simp [insertNames]
  | cons head rest ih =>
      show name ∈ insertName head (insertNames rest names) ↔ _
      rw [mem_insertName, ih, List.mem_cons, or_assoc]

theorem ascends_insertNames (added : List Text) {names : List Text} (h : Ascends names) :
    Ascends (insertNames added names) := by
  induction added with
  | nil => exact h
  | cons head rest ih => exact ascends_insertName head ih

@[simp] theorem mem_ascending {name : Text} {names : List Text} :
    name ∈ ascending names ↔ name ∈ names := by
  simp [ascending]

theorem ascends_ascending (names : List Text) : Ascends (ascending names) :=
  ascends_insertNames names (by simp [Ascends])

/-! ## Lists without repetition -/

section AppendNew

variable {α : Type} [DecidableEq α]

@[simp] theorem mem_appendNew {x : α} {known added : List α} :
    x ∈ appendNew known added ↔ x ∈ known ∨ x ∈ added := by
  induction added generalizing known with
  | nil => simp [appendNew]
  | cons head rest ih =>
      show x ∈ appendNew (if head ∈ known then known else known ++ [head]) rest ↔ _
      rw [ih]
      split <;> grind

theorem nodup_appendNew {known : List α} (h : known.Nodup) (added : List α) :
    (appendNew known added).Nodup := by
  induction added generalizing known with
  | nil => exact h
  | cons head rest ih =>
      show (appendNew (if head ∈ known then known else known ++ [head]) rest).Nodup
      apply ih
      split
      · exact h
      · next hnew => grind

theorem mem_foldl_appendNew {β : Type} {f : β → List α} {x : α} {known : List α} {ys : List β} :
    x ∈ ys.foldl (fun known y => appendNew known (f y)) known ↔
      x ∈ known ∨ ∃ y ∈ ys, x ∈ f y := by
  induction ys generalizing known with
  | nil => simp
  | cons y rest ih =>
      rw [List.foldl_cons, ih, mem_appendNew]
      simp only [List.mem_cons, exists_eq_or_imp, or_assoc]

theorem nodup_foldl_appendNew {β : Type} (f : β → List α) {known : List α} (h : known.Nodup)
    (ys : List β) : (ys.foldl (fun known y => appendNew known (f y)) known).Nodup := by
  induction ys generalizing known with
  | nil => exact h
  | cons y rest ih => exact ih (nodup_appendNew h (f y))

theorem appendNew_singleton (known : List α) (x : α) :
    appendNew known [x] = if x ∈ known then known else known ++ [x] := rfl

theorem appendNew_singleton_of_mem {x : α} {known : List α} (h : x ∈ known) :
    appendNew known [x] = known := by
  rw [appendNew_singleton, if_pos h]

theorem appendNew_cons (known : List α) (x : α) (added : List α) :
    appendNew known (x :: added) = appendNew (appendNew known [x]) added := rfl

theorem appendNew_eq_self {known added : List α} (h : ∀ x ∈ added, x ∈ known) :
    appendNew known added = known := by
  induction added with
  | nil => rfl
  | cons x rest ih =>
      obtain ⟨hx, hrest⟩ := List.forall_mem_cons.mp h
      rw [appendNew_cons, appendNew_singleton_of_mem hx, ih hrest]

end AppendNew

/-! ## Maps from names -/

namespace NameMap

variable {α : Type}

theorem get?_insert (map : NameMap α) (key other : Text) (value : α) :
    (map.insert key value).get? other = if other = key then some value else map.get? other := by
  split
  · next heq => rw [heq, get?_insert_self]
  · next hne => exact get?_insert_ne map hne value

private theorem mem_iff_lookupEntry {entries : List (Text × α)} (h : KeysAscend entries)
    {key : Text} {value : α} :
    (key, value) ∈ entries ↔ lookupEntry key entries = some value := by
  induction entries with
  | nil => simp [lookupEntry]
  | cons head rest ih =>
      obtain ⟨k, v⟩ := head
      obtain ⟨hhead, hrest⟩ := List.pairwise_cons.mp h
      simp only [lookupEntry, List.mem_cons, Prod.mk.injEq]
      by_cases hkey : key = k
      · -- Behind an entry for `key` every key is greater, so none of them is `key` again.
        subst hkey
        have hnone : (key, value) ∉ rest := fun hmem => List.lt_irrefl key (hhead _ hmem)
        simp [hnone, eq_comm]
      · simp [hkey, ih hrest]

theorem mem_entries_iff {map : NameMap α} {key : Text} {value : α} :
    (key, value) ∈ map.entries ↔ map.get? key = some value :=
  mem_iff_lookupEntry map.ascend

/-- Maps with the same values under the same keys are equal. -/
theorem eq_of_get?_eq {map other : NameMap α} (h : ∀ key, map.get? key = other.get? key) :
    map = other := by
  have hasymm : Std.Asymm fun a b : Text × α => a.1 < b.1 := ⟨fun _ _ => List.lt_asymm⟩
  have hentries : map.entries = other.entries := by
    refine List.Pairwise.eq_of_mem_iff map.ascend other.ascend fun entry => ?_
    obtain ⟨key, value⟩ := entry
    rw [mem_entries_iff, mem_entries_iff, h key]
  cases map
  cases other
  cases hentries
  rfl

private theorem get?_foldl_insert {entries : List (Text × α)} (h : KeysAscend entries)
    (start : NameMap α) (key : Text) :
    (entries.foldl (fun map (k, v) => map.insert k v) start).get? key =
      (lookupEntry key entries).or (start.get? key) := by
  induction entries generalizing start with
  | nil => rfl
  | cons head rest ih =>
      obtain ⟨k, v⟩ := head
      obtain ⟨hhead, hrest⟩ := List.pairwise_cons.mp h
      rw [List.foldl_cons, ih hrest, get?_insert, lookupEntry]
      split
      · next hkey =>
          -- The keys behind are greater, so nothing replaces what was just put in.
          have hnone : lookupEntry key rest = none := by
            rw [Option.eq_none_iff_forall_ne_some]
            intro value hvalue
            have hlt := hhead _ ((mem_iff_lookupEntry hrest).mpr hvalue)
            rw [hkey] at hlt
            exact List.lt_irrefl k hlt
          rw [hnone, Option.none_or, Option.some_or]
      · rfl

/-- Filling a new map with the entries of a map gives the map back. -/
theorem ofList_entries (map : NameMap α) : ofList map.entries = map := by
  apply eq_of_get?_eq
  intro key
  rw [ofList, get?_foldl_insert map.ascend]
  exact Option.or_none

end NameMap

end Shortfall

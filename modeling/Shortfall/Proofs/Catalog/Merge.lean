import Mathlib.Data.List.Basic
import Shortfall.Catalog.Pack
import Shortfall.Proofs.Catalog.Lookup
import Shortfall.Proofs.Collections

/-!
# Merging categories

Additions are merged into a list of categories one after the other. One step either extends the
category with the tag of the addition, in its place, or puts the addition at the end
(`mergeCategory_of_known`, `mergeCategory_of_new`).

Three views of the list are followed along the steps. Its tags, in normal form, are a list to which
each step appends the tag of the addition if that is new, so they stay distinct. The category at a
place only grows (`Category.GrowsTo`): what it says stays in front, and what comes behind is new.
And an addition that was merged is held by the list from then on (`HeldIn`), since a category that
grows still says what it did; merging an addition that is held changes nothing, which is why merging
the same additions again does nothing. The last view is the phrases that trigger one of the
categories, which are those that did before and those of the additions.

## Main results

* `growsTo_mergeCategories`, `heldIn_mergeCategories`, `tags_mergeCategories`: the views after a
  whole list of additions.
* `merging_loses_nothing`: what merging does to categories with distinct tags.
* `build_mergeCategories_iff`, `relates_of_build_mergeCategories`: categories merged into a catalog.
-/

namespace Shortfall

/-! ## Lists and categories that grow -/

/-- The texts, and behind them others, each once. -/
def GrowsTo (texts grown : List Text) : Prop :=
  ∃ new, grown = texts ++ new ∧ new.Nodup ∧ ∀ text ∈ new, text ∉ texts

namespace GrowsTo

variable {texts grown further : List Text}

theorem refl (texts : List Text) : GrowsTo texts texts :=
  ⟨[], (List.append_nil texts).symm, List.nodup_nil, nofun⟩

theorem trans (h : GrowsTo texts grown) (hfurther : GrowsTo grown further) :
    GrowsTo texts further := by
  obtain ⟨new, rfl, hnew, hfresh⟩ := h
  obtain ⟨newer, rfl, hnewer, hfresher⟩ := hfurther
  refine ⟨new ++ newer, List.append_assoc texts new newer, ?_, ?_⟩
  · refine List.nodup_append.mpr ⟨hnew, hnewer, ?_⟩
    rintro text htext _ hother rfl
    exact hfresher text hother (List.mem_append_right texts htext)
  · intro text htext
    rcases List.mem_append.mp htext with hmem | hmem
    · exact hfresh text hmem
    · exact fun hknown => hfresher text hmem (List.mem_append_left new hknown)

theorem mem (h : GrowsTo texts grown) {text : Text} (htext : text ∈ texts) : text ∈ grown := by
  obtain ⟨new, rfl, _⟩ := h
  exact List.mem_append_left new htext

end GrowsTo

theorem growsTo_appendNew (known added : List Text) : GrowsTo known (appendNew known added) := by
  induction added generalizing known with
  | nil => exact .refl known
  | cons text rest ih =>
      rw [appendNew_cons]
      refine GrowsTo.trans ?_ (ih _)
      rw [appendNew_singleton]
      split
      · exact .refl known
      · next hnew =>
          refine ⟨[text], rfl, List.nodup_singleton text, ?_⟩
          intro other hother
          rw [List.mem_singleton.mp hother]
          exact hnew

namespace Category

/-- The category with more behind what it says, and with a name if it had none. -/
structure GrowsTo (category grown : Category) : Prop where
  id_eq : grown.id = category.id
  name_eq : category.name ≠ [] → grown.name = category.name
  triggers : Shortfall.GrowsTo category.triggers grown.triggers
  recommendations : Shortfall.GrowsTo category.recommendations grown.recommendations
  cwe : Shortfall.GrowsTo category.cwe grown.cwe

/-- The category says what the addition does, and has a name if the addition has one. -/
structure Holds (category addition : Category) : Prop where
  name_ne : addition.name ≠ [] → category.name ≠ []
  triggers : ∀ trigger ∈ addition.triggers, trigger ∈ category.triggers
  recommendations : ∀ advice ∈ addition.recommendations, advice ∈ category.recommendations
  cwe : ∀ reference ∈ addition.cwe, reference ∈ category.cwe

variable {category addition grown further : Category}

theorem GrowsTo.refl (category : Category) : category.GrowsTo category where
  id_eq := rfl
  name_eq := fun _ => rfl
  triggers := .refl _
  recommendations := .refl _
  cwe := .refl _

theorem GrowsTo.trans (h : category.GrowsTo grown) (hfurther : grown.GrowsTo further) :
    category.GrowsTo further where
  id_eq := hfurther.id_eq.trans h.id_eq
  name_eq := fun hname => by
    have hgrown := h.name_eq hname
    rw [hfurther.name_eq (hgrown ▸ hname), hgrown]
  triggers := h.triggers.trans hfurther.triggers
  recommendations := h.recommendations.trans hfurther.recommendations
  cwe := h.cwe.trans hfurther.cwe

private theorem growsTo_extend (category addition : Category) :
    category.GrowsTo (category.extend addition) where
  id_eq := rfl
  name_eq := fun hname => if_neg (by simpa using hname)
  triggers := growsTo_appendNew _ _
  recommendations := growsTo_appendNew _ _
  cwe := growsTo_appendNew _ _

private theorem growsTo_extend_if (category addition : Category) (p : Prop) [Decidable p] :
    category.GrowsTo (if p then category.extend addition else category) := by
  split
  · exact growsTo_extend category addition
  · exact .refl category

private theorem holds_extend (category addition : Category) :
    (category.extend addition).Holds addition where
  name_ne := fun hname => by
    rw [extend]
    split
    · exact hname
    · next hother => simpa using hother
  triggers := fun _ h => mem_appendNew.mpr (.inr h)
  recommendations := fun _ h => mem_appendNew.mpr (.inr h)
  cwe := fun _ h => mem_appendNew.mpr (.inr h)

private theorem holds_normalized (addition : Category) : addition.normalized.Holds addition :=
  ⟨fun h => h, fun _ h => h, fun _ h => h, fun _ h => h⟩

private theorem Holds.of_growsTo (h : category.Holds addition) (hgrown : category.GrowsTo grown) :
    grown.Holds addition where
  name_ne := fun hname => by
    rw [hgrown.name_eq (h.name_ne hname)]
    exact h.name_ne hname
  triggers := fun trigger hmem => hgrown.triggers.mem (h.triggers trigger hmem)
  recommendations := fun advice hmem => hgrown.recommendations.mem (h.recommendations advice hmem)
  cwe := fun reference hmem => hgrown.cwe.mem (h.cwe reference hmem)

private theorem Holds.extend_eq_self (h : category.Holds addition) :
    category.extend addition = category := by
  have hname : (if category.name.isEmpty then addition.name else category.name) =
      category.name := by
    split
    · next hempty =>
        rw [List.isEmpty_iff] at hempty
        rw [hempty]
        exact Classical.byContradiction fun hne => h.name_ne hne hempty
    · rfl
  rw [extend, hname, appendNew_eq_self h.triggers, appendNew_eq_self h.recommendations,
    appendNew_eq_self h.cwe]

end Category

namespace Catalog

variable {categories additions : List Category} {addition : Category} {phrase id : Text}

/-! ## One addition -/

/-- The tags of categories, in normal form. -/
def tags (categories : List Category) : List Text :=
  categories.map fun category => normalizeId category.id

theorem mem_tags {categories : List Category} {tag : Text} :
    tag ∈ tags categories ↔ ∃ category ∈ categories, normalizeId category.id = tag :=
  List.mem_map

theorem any_tag_iff :
    (categories.any fun category => normalizeId category.id = normalizeId addition.id) = true ↔
      normalizeId addition.id ∈ tags categories := by
  simp [mem_tags]

theorem mergeCategory_of_known (h : normalizeId addition.id ∈ tags categories) :
    mergeCategory categories addition =
      categories.map fun category =>
        if normalizeId category.id = normalizeId addition.id then category.extend addition
        else category := by
  rw [mergeCategory, if_pos (any_tag_iff.mpr h)]

theorem mergeCategory_of_new (h : normalizeId addition.id ∉ tags categories) :
    mergeCategory categories addition = categories ++ [addition.normalized] := by
  rw [mergeCategory, if_neg fun hany => h (any_tag_iff.mp hany), Category.normalized]

/-- What stands at a place in the list stays there and grows. -/
theorem growsTo_mergeCategory {index : Nat} {category : Category}
    (h : categories[index]? = some category) (addition : Category) :
    ∃ grown, (mergeCategory categories addition)[index]? = some grown ∧
      category.GrowsTo grown := by
  by_cases hknown : normalizeId addition.id ∈ tags categories
  · rw [mergeCategory_of_known hknown, List.getElem?_map, h]
    exact ⟨_, rfl, category.growsTo_extend_if addition _⟩
  · rw [mergeCategory_of_new hknown]
    have hplace := (List.getElem?_eq_some_iff.mp h).1
    exact ⟨category, by rw [List.getElem?_append_left hplace, h], .refl category⟩

/-- A category of the merged list was in the list and has grown, or it is the addition. -/
theorem mem_mergeCategory {category : Category} (h : category ∈ mergeCategory categories addition) :
    (∃ known ∈ categories, known.GrowsTo category) ∨
      category = addition.normalized ∧ normalizeId addition.id ∉ tags categories := by
  by_cases hknown : normalizeId addition.id ∈ tags categories
  · rw [mergeCategory_of_known hknown] at h
    obtain ⟨known, hmem, rfl⟩ := List.mem_map.mp h
    exact .inl ⟨known, hmem, known.growsTo_extend_if addition _⟩
  · rw [mergeCategory_of_new hknown] at h
    rcases List.mem_append.mp h with hmem | hmem
    · exact .inl ⟨category, hmem, .refl category⟩
    · exact .inr ⟨List.mem_singleton.mp hmem, hknown⟩

theorem tags_mergeCategory (categories : List Category) (addition : Category) :
    tags (mergeCategory categories addition) =
      appendNew (tags categories) [normalizeId addition.id] := by
  rw [appendNew_singleton]
  split
  · next hknown =>
      rw [mergeCategory_of_known hknown, tags, List.map_map]
      apply List.map_congr_left
      intro category _
      simp only [Function.comp_apply]
      split <;> rfl
  · next hnew =>
      rw [mergeCategory_of_new hnew, tags, List.map_append, List.map_singleton,
        Category.normalized, normalizeId_normalizeId]
      rfl

/-- The list has a category with the tag of the addition, and such a category holds it. -/
def HeldIn (categories : List Category) (addition : Category) : Prop :=
  normalizeId addition.id ∈ tags categories ∧
    ∀ category ∈ categories, normalizeId category.id = normalizeId addition.id →
      category.Holds addition

private theorem heldIn_mergeCategory (categories : List Category) (addition : Category) :
    HeldIn (mergeCategory categories addition) addition := by
  refine ⟨by simp [tags_mergeCategory], ?_⟩
  intro category hcategory htag
  by_cases hknown : normalizeId addition.id ∈ tags categories
  · rw [mergeCategory_of_known hknown] at hcategory
    obtain ⟨known, _, rfl⟩ := List.mem_map.mp hcategory
    split at htag
    · next hsame =>
        rw [if_pos hsame]
        exact known.holds_extend addition
    · next hother => exact absurd htag hother
  · rw [mergeCategory_of_new hknown] at hcategory
    rcases List.mem_append.mp hcategory with hmem | hmem
    · exact absurd (mem_tags.mpr ⟨category, hmem, htag⟩) hknown
    · rw [List.mem_singleton.mp hmem]
      exact addition.holds_normalized

/-- What is held stays held, whatever else is merged. -/
theorem HeldIn.mergeCategory (h : HeldIn categories addition) (other : Category) :
    HeldIn (mergeCategory categories other) addition := by
  refine ⟨by simp [tags_mergeCategory, h.1], ?_⟩
  intro category hcategory htag
  rcases mem_mergeCategory hcategory with ⟨known, hknown, hgrown⟩ | ⟨rfl, hnew⟩
  · rw [hgrown.id_eq] at htag
    exact (h.2 known hknown htag).of_growsTo hgrown
  · -- A category that is put at the end has a new tag, and that of `addition` is not new.
    rw [Category.normalized, normalizeId_normalizeId] at htag
    exact absurd (htag ▸ h.1) hnew

theorem mergeCategory_eq_self (h : HeldIn categories addition) :
    Catalog.mergeCategory categories addition = categories := by
  rw [mergeCategory_of_known h.1]
  refine (List.map_congr_left ?_).trans (List.map_id categories)
  intro category hcategory
  split
  · next htag => exact (h.2 category hcategory htag).extend_eq_self
  · rfl

theorem triggers_extend {category : Category}
    (h : normalizeId category.id = normalizeId addition.id) :
    (category.extend addition).Triggers phrase id ↔
      category.Triggers phrase id ∨ addition.Triggers phrase id := by
  simp only [Category.Triggers, Category.extend, mem_appendNew, h]
  grind

private theorem triggers_mergeCategory :
    (∃ category ∈ mergeCategory categories addition, category.Triggers phrase id) ↔
      (∃ category ∈ categories, category.Triggers phrase id) ∨ addition.Triggers phrase id := by
  by_cases hknown : normalizeId addition.id ∈ tags categories
  · rw [mergeCategory_of_known hknown]
    constructor
    · rintro ⟨_, hmem, htriggers⟩
      obtain ⟨category, hcategory, rfl⟩ := List.mem_map.mp hmem
      split at htriggers
      · next hsame =>
          rcases (triggers_extend hsame).mp htriggers with hbefore | hnew
          · exact .inl ⟨category, hcategory, hbefore⟩
          · exact .inr hnew
      · exact .inl ⟨category, hcategory, htriggers⟩
    · rintro (⟨category, hcategory, htriggers⟩ | htriggers)
      · refine ⟨_, List.mem_map_of_mem hcategory, ?_⟩
        split
        · next hsame => exact (triggers_extend hsame).mpr (.inl htriggers)
        · exact htriggers
      · obtain ⟨known, hmem, htag⟩ := mem_tags.mp hknown
        refine ⟨_, List.mem_map_of_mem hmem, ?_⟩
        rw [if_pos htag]
        exact (triggers_extend htag).mpr (.inr htriggers)
  · rw [mergeCategory_of_new hknown]
    simp only [List.mem_append, List.mem_singleton, or_and_right, exists_or, exists_eq_left]
    exact or_congr_right triggers_normalized

/-! ## A list of additions -/

theorem mergeCategories_cons (categories : List Category) (addition : Category)
    (rest : List Category) :
    mergeCategories categories (addition :: rest) =
      mergeCategories (mergeCategory categories addition) rest := rfl

theorem growsTo_mergeCategories {index : Nat} {category : Category}
    (h : categories[index]? = some category) (additions : List Category) :
    ∃ grown, (mergeCategories categories additions)[index]? = some grown ∧
      category.GrowsTo grown := by
  induction additions generalizing categories category with
  | nil => exact ⟨category, h, .refl category⟩
  | cons addition rest ih =>
      obtain ⟨grown, hgrown, hgrows⟩ := growsTo_mergeCategory h addition
      obtain ⟨further, hfurther, hgrows'⟩ := ih hgrown
      exact ⟨further, hfurther, hgrows.trans hgrows'⟩

theorem HeldIn.mergeCategories (h : HeldIn categories addition) (additions : List Category) :
    HeldIn (mergeCategories categories additions) addition := by
  induction additions generalizing categories with
  | nil => exact h
  | cons other rest ih => exact ih (h.mergeCategory other)

theorem heldIn_mergeCategories (categories : List Category) (h : addition ∈ additions) :
    HeldIn (Catalog.mergeCategories categories additions) addition := by
  induction additions generalizing categories with
  | nil => cases h
  | cons other rest ih =>
      rcases List.mem_cons.mp h with rfl | hrest
      · exact (heldIn_mergeCategory categories addition).mergeCategories rest
      · exact ih (Catalog.mergeCategory categories other) hrest

/-- Merging changes nothing where everything is held. -/
theorem mergeCategories_eq_self (h : ∀ addition ∈ additions, HeldIn categories addition) :
    mergeCategories categories additions = categories := by
  induction additions with
  | nil => rfl
  | cons addition rest ih =>
      obtain ⟨hfirst, hrest⟩ := List.forall_mem_cons.mp h
      rw [mergeCategories_cons, mergeCategory_eq_self hfirst, ih hrest]

/-- Merging appends the tags that are new. -/
theorem tags_mergeCategories (categories additions : List Category) :
    tags (mergeCategories categories additions) = appendNew (tags categories) (tags additions) := by
  induction additions generalizing categories with
  | nil => rfl
  | cons addition rest ih =>
      rw [mergeCategories_cons, ih, tags_mergeCategory]
      rfl

/-- A phrase triggers what it did before, and what is added. -/
theorem triggers_mergeCategories :
    (∃ category ∈ mergeCategories categories additions, category.Triggers phrase id) ↔
      (∃ category ∈ categories, category.Triggers phrase id) ∨
        ∃ addition ∈ additions, addition.Triggers phrase id := by
  induction additions generalizing categories with
  | nil => simp [mergeCategories]
  | cons addition rest ih =>
      rw [mergeCategories_cons, ih, triggers_mergeCategory]
      simp only [List.mem_cons, exists_eq_or_imp, or_assoc]

/-- **Merging loses nothing, and merging again does nothing.** Where the tags of some categories are
distinct, each of them keeps its place when additions are merged, and there it keeps its tag, its
name if it had one, and what it says in front of what is new, each new text once. Each addition is
held by a category with its tag. The tags are still distinct, so there is one such category; and to
merge the same additions again changes nothing. -/
theorem merging_loses_nothing {categories : List Category} (h : (tags categories).Nodup)
    (additions : List Category) :
    (∀ (index : Nat) (category : Category), categories[index]? = some category →
      ∃ grown, (mergeCategories categories additions)[index]? = some grown ∧
        category.GrowsTo grown) ∧
    (∀ addition ∈ additions, ∃ category ∈ mergeCategories categories additions,
      normalizeId category.id = normalizeId addition.id ∧ category.Holds addition) ∧
    (tags (mergeCategories categories additions)).Nodup ∧
    mergeCategories (mergeCategories categories additions) additions =
      mergeCategories categories additions := by
  refine ⟨fun index category hplace => growsTo_mergeCategories hplace additions, ?_, ?_, ?_⟩
  · intro addition haddition
    obtain ⟨htag, hheld⟩ := heldIn_mergeCategories categories haddition
    obtain ⟨category, hcategory, hsame⟩ := mem_tags.mp htag
    exact ⟨category, hcategory, hsame, hheld category hcategory hsame⟩
  · rw [tags_mergeCategories]
    exact nodup_appendNew h _
  · exact mergeCategories_eq_self fun addition haddition =>
      heldIn_mergeCategories categories haddition

/-- A category without a name, with a trigger. -/
def unnamed : List Category := [{ id := "x", triggers := ["a"] }]

/-- Additions with one new tag and one that is known, each of them spelled in two ways. -/
def respelled : List Category := [
  { id := "X", name := "N", triggers := ["b", "a", "b"] },
  { id := "y-z", triggers := ["c", "c"] },
  { id := " x", name := "M", cwe := ["1"] },
  { id := "Y Z", name := "O", triggers := ["c", "d"] }]

theorem respelled_loses_nothing :
    (tags unnamed).Nodup ∧
      mergeCategories unnamed respelled = [
        { id := "x", name := "N", triggers := ["a", "b"], cwe := ["1"] },
        { id := "Y_Z", name := "O", triggers := ["c", "c", "d"] }] ∧
      (tags (mergeCategories unnamed respelled)).Nodup ∧
      mergeCategories (mergeCategories unnamed respelled) respelled =
        mergeCategories unnamed respelled := by
  have hnodup : (tags unnamed).Nodup := by decide +kernel
  exact ⟨hnodup, by decide +kernel, (merging_loses_nothing hnodup respelled).2.2⟩

/-! ## Additions to a catalog -/

section Merged

variable {base : Catalog}

theorem tags_of_build (h : build categories = .ok base) :
    (tags base.categories).Nodup ∧ [] ∉ tags base.categories := by
  have hproper := isProper_of_build h
  rw [tags, hproper.tags_eq]
  refine ⟨hproper.distinct, ?_⟩
  intro hempty
  obtain ⟨category, hcategory, hid⟩ := List.mem_map.mp hempty
  exact hproper.present category hcategory hid

/-- Additions to a catalog make a catalog unless one of them has no tag. -/
theorem build_mergeCategories_iff (h : build categories = .ok base) :
    (∃ merged, build (mergeCategories base.categories additions) = .ok merged) ↔
      [] ∉ tags additions := by
  obtain ⟨hnodup, hpresent⟩ := tags_of_build h
  have hmerged : (tags (mergeCategories base.categories additions)).Nodup := by
    rw [tags_mergeCategories]
    exact nodup_appendNew hnodup _
  have hempty : [] ∈ tags (mergeCategories base.categories additions) ↔ [] ∈ tags additions := by
    rw [tags_mergeCategories, mem_appendNew, or_iff_right hpresent]
  rw [← hempty]
  constructor
  · rintro ⟨merged, hbuild⟩ hmem
    obtain ⟨category, hcategory, hid⟩ := mem_tags.mp hmem
    exact (build_eq_ok_iff.mp hbuild).1 category hcategory hid
  · intro hnone
    refine ⟨⟨(mergeCategories base.categories additions).map Category.normalized⟩,
      build_eq_ok_iff.mpr ⟨?_, hmerged, rfl⟩⟩
    intro category hcategory hid
    exact hnone (mem_tags.mpr ⟨category, hcategory, hid⟩)

theorem relates_of_build_mergeCategories {merged : Catalog} (h : build categories = .ok base)
    (hmerged : build (mergeCategories base.categories additions) = .ok merged) :
    merged.relates phrase id = true ↔
      base.relates phrase id = true ∨ ∃ addition ∈ additions, addition.Triggers phrase id := by
  rw [relates_iff_of_build hmerged, triggers_mergeCategories, (isProper_of_build h).relates_iff]

end Merged

end Catalog

end Shortfall

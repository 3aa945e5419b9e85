import Mathlib.Data.List.Nodup
import Shortfall.Proofs.Catalog.Tags
import Shortfall.Proofs.Text.Delimiters

/-!
# Looking up a category

A catalog is a list of categories, and what it is asked for is found by tag. In a proper catalog the
tags are distinct and in normal form, so the first category that is found is the only one, and a
phrase relates to a tag by the triggers of that category alone.

## Main results

* `IsProper.lookup?_eq_some_iff`: looking up a tag finds the category that has it.
* `IsProper.relates_iff`: a phrase relates to what it triggers.
* `build_keeps_categories`: what building makes of any list of categories.
-/

namespace Shortfall

/-- The category has the tag, and one of its triggers occurs in the phrase, all in normal form. -/
def Category.Triggers (category : Category) (phrase id : Text) : Prop :=
  Catalog.normalizeId category.id = Catalog.normalizeId id ∧
    ∃ trigger ∈ category.triggers, Catalog.normalizePhrase trigger ≠ [] ∧
      (Catalog.normalizePhrase trigger).occursIn (Catalog.normalizePhrase phrase) = true

instance (category : Category) (phrase id : Text) : Decidable (category.Triggers phrase id) :=
  inferInstanceAs (Decidable (_ ∧ _))

namespace Catalog

variable {catalog : Catalog} {categories : List Category} {category : Category} {phrase id : Text}

theorem triggers_normalized :
    category.normalized.Triggers phrase id ↔ category.Triggers phrase id := by
  rw [Category.Triggers, Category.normalized, normalizeId_normalizeId]
  rfl

/-! ## Looking up a tag -/

private theorem IsProper.eq_of_id_eq (h : catalog.IsProper) {other : Category}
    (hcategory : category ∈ catalog.categories) (hother : other ∈ catalog.categories)
    (hid : category.id = other.id) : category = other :=
  List.inj_on_of_nodup_map h.distinct hcategory hother hid

theorem isSome_lookup?_iff :
    (catalog.lookup? id).isSome = true ↔
      ∃ category ∈ catalog.categories, category.id = normalizeId id := by
  rw [lookup?, List.find?_isSome]
  simp only [decide_eq_true_eq]

/-- Looking up a tag finds the category that has its normal form. -/
theorem IsProper.lookup?_eq_some_iff (h : catalog.IsProper) :
    catalog.lookup? id = some category ↔
      category ∈ catalog.categories ∧ category.id = normalizeId id := by
  constructor
  · intro hfound
    exact ⟨List.mem_of_find?_eq_some hfound, by simpa using List.find?_some hfound⟩
  · rintro ⟨hcategory, hid⟩
    obtain ⟨found, hfound⟩ :=
      Option.isSome_iff_exists.mp (isSome_lookup?_iff.mpr ⟨category, hcategory, hid⟩)
    have hfoundId : found.id = normalizeId id := by simpa using List.find?_some hfound
    have hsame := h.eq_of_id_eq hcategory (List.mem_of_find?_eq_some hfound)
      (hid.trans hfoundId.symm)
    rw [hfound, hsame]

/-! ## Matching -/

/-- A phrase relates to a tag by the triggers of the category that is looked up. -/
theorem relates_iff_lookup? :
    catalog.relates phrase id = true ↔
      ∃ category, catalog.lookup? id = some category ∧
        ∃ trigger ∈ category.triggers, normalizePhrase trigger ≠ [] ∧
          (normalizePhrase trigger).occursIn (normalizePhrase phrase) = true := by
  rw [relates]
  cases catalog.lookup? id with
  | none => simp
  | some category => simp [Category.normalTriggers]

/-- In a proper catalog a phrase relates to what it triggers. -/
theorem IsProper.relates_iff (h : catalog.IsProper) :
    catalog.relates phrase id = true ↔
      ∃ category ∈ catalog.categories, category.Triggers phrase id := by
  rw [relates_iff_lookup?]
  simp only [h.lookup?_eq_some_iff, Category.Triggers]
  constructor
  · rintro ⟨category, ⟨hcategory, hid⟩, htrigger⟩
    exact ⟨category, hcategory, (h.normal category hcategory).trans hid, htrigger⟩
  · rintro ⟨category, hcategory, htag, htrigger⟩
    exact ⟨category, ⟨hcategory, (h.normal category hcategory).symm.trans htag⟩, htrigger⟩

theorem relates_iff_of_build (h : build categories = .ok catalog) :
    catalog.relates phrase id = true ↔ ∃ category ∈ categories, category.Triggers phrase id := by
  obtain ⟨_, _, hcategories⟩ := build_eq_ok_iff.mp h
  rw [(isProper_of_build h).relates_iff, hcategories]
  simp only [List.mem_map, exists_exists_and_eq_and, triggers_normalized]

/-- **Building keeps the categories and finds them by tag.** Categories make a catalog exactly if
their tags, in normal form, are present and distinct. The catalog has them in their order and as
they are but for the tags, which are distinct and stay as they are when they are normalized again.
Looking up a text finds a category exactly if one has its normal form for a tag, and then finds that
one; a phrase relates to a text by the triggers of the category that is found, those of which the
normal form is empty left out. Building again from the categories gives the same catalog. -/
theorem build_keeps_categories (categories : List Category) :
    ((∃ catalog, build categories = .ok catalog) ↔
      (∀ category ∈ categories, normalizeId category.id ≠ []) ∧
        (categories.map fun category => normalizeId category.id).Nodup) ∧
    ∀ catalog, build categories = .ok catalog →
      catalog.categories =
        categories.map (fun category => { category with id := normalizeId category.id }) ∧
      (catalog.categories.map (·.id)).Nodup ∧
      (∀ category ∈ catalog.categories, normalizeId category.id = category.id) ∧
      (∀ id, (catalog.lookup? id).isSome = true ↔
        ∃ category ∈ catalog.categories, category.id = normalizeId id) ∧
      (∀ id category, catalog.lookup? id = some category ↔
        category ∈ catalog.categories ∧ category.id = normalizeId id) ∧
      (∀ phrase id, catalog.relates phrase id = true ↔
        ∃ category, catalog.lookup? id = some category ∧
          ∃ trigger ∈ category.triggers, normalizePhrase trigger ≠ [] ∧
            normalizePhrase trigger <:+: normalizePhrase phrase) ∧
      build catalog.categories = .ok catalog := by
  refine ⟨?_, fun catalog hbuild => ?_⟩
  · constructor
    · rintro ⟨catalog, hbuild⟩
      obtain ⟨hpresent, hnodup, _⟩ := build_eq_ok_iff.mp hbuild
      exact ⟨hpresent, hnodup⟩
    · rintro ⟨hpresent, hnodup⟩
      exact ⟨⟨categories.map Category.normalized⟩, build_eq_ok_iff.mpr ⟨hpresent, hnodup, rfl⟩⟩
  · have hproper := isProper_of_build hbuild
    refine ⟨(build_eq_ok_iff.mp hbuild).2.2, hproper.distinct, hproper.normal,
      fun id => isSome_lookup?_iff, fun id category => hproper.lookup?_eq_some_iff,
      fun phrase id => ?_, hproper.build_categories⟩
    simp only [relates_iff_lookup?, Text.occursIn_iff]

end Catalog

end Shortfall

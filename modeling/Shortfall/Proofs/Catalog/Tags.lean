import Shortfall.Catalog.Builtin
import Shortfall.Proofs.Text.LetterCase
import Shortfall.Proofs.Text.Occurrences

/-!
# The tags of a catalog

A catalog is built from categories whose tags are brought into normal form and must be present and
distinct, and this is all there is to it (`build_eq_ok_iff`). A tag in normal form is its own normal
form: what is left between the white space of a tag begins and ends with something else, and neither
upper case nor underscores bring white space back. So the catalogs that building gives are those
whose tags are present, distinct and in normal form (`IsProper`), and each of them is built again
from its categories. No tag in normal form contains a blank.

## Main results

* `normalizeId_normalizeId`: the normal form of a tag is its own normal form.
* `build_eq_ok_iff`: which categories make a catalog, and which catalog they make.
* `isProper_of_build`, `IsProper.build_categories`: the catalogs that building gives.
* `build_builtin`: the catalog that comes with the library is a built one.
-/

namespace Shortfall

/-- The category with its tag in normal form. -/
def Category.normalized (category : Category) : Category :=
  { category with id := Catalog.normalizeId category.id }

namespace Catalog

/-! ## Tags in normal form -/

/-- What becomes of a character in upper case: words are joined with underscores. -/
def joinWords (c : Char) : Char := if c = '-' || c = ' ' then '_' else c

private theorem joinWords_of_ne {c : Char} (hhyphen : c ≠ '-') (hblank : c ≠ ' ') :
    joinWords c = c := by
  simp [joinWords, hhyphen, hblank]

private theorem encode_joinWords (c : Char) :
    (String.utf8EncodeChar c).map (fun byte => if byte = 0x2D || byte = 0x20 then 0x5F else byte) =
      String.utf8EncodeChar (joinWords c) :=
  Text.map_encode_replace (a := '-') (b := ' ') (x := '_') (by decide) (by decide) (by decide) c

theorem normalizeId_eq (id : Text) :
    normalizeId id = Text.ofChars (id.trim.shown.map fun c => joinWords (Text.upperChar c)) := by
  rw [normalizeId, Text.upper, Text.map_ofChars encode_joinWords, List.map_map]
  rfl

private theorem joinWords_upperChar_twice (c : Char) :
    joinWords (Text.upperChar (joinWords (Text.upperChar c))) = joinWords (Text.upperChar c) := by
  by_cases hhyphen : Text.upperChar c = '-'
  · rw [hhyphen]
    decide +kernel
  by_cases hblank : Text.upperChar c = ' '
  · rw [hblank]
    decide +kernel
  rw [joinWords_of_ne hhyphen hblank, Text.upperChar_upperChar, joinWords_of_ne hhyphen hblank]

private theorem isBlank_joinWords_upperChar {c : Char} (h : Text.isBlank c = false) :
    Text.isBlank (joinWords (Text.upperChar c)) = false := by
  rw [Bool.eq_false_iff] at h ⊢
  intro hblank
  rw [joinWords] at hblank
  split at hblank
  · exact absurd hblank (by decide)
  · exact h (Text.isBlank_of_isBlank_upperChar hblank)

/-- The normal form of a tag neither begins nor ends with white space. -/
theorem trim_normalizeId (id : Text) : (normalizeId id).trim = normalizeId id := by
  have hkept : ∀ piece : Text.Piece, piece.isBlank = false →
      (Text.Piece.char (joinWords (Text.upperChar piece.shown))).isBlank = false :=
    fun piece hpiece => isBlank_joinWords_upperChar hpiece
  rw [normalizeId_eq, Text.shown, List.map_map]
  apply Text.trim_eq_self
  · intro piece hpiece
    simp only [Text.pieces_ofChars, List.head?_map, Option.mem_def,
      Option.map_eq_some_iff] at hpiece
    obtain ⟨_, ⟨given, hgiven, rfl⟩, rfl⟩ := hpiece
    exact hkept given (Text.head?_pieces_trim id given hgiven)
  · intro piece hpiece
    simp only [Text.pieces_ofChars, List.getLast?_map, Option.mem_def,
      Option.map_eq_some_iff] at hpiece
    obtain ⟨_, ⟨given, hgiven, rfl⟩, rfl⟩ := hpiece
    exact hkept given (Text.getLast?_pieces_trim id given hgiven)

/-- **The normal form of a tag is its own normal form.** -/
theorem normalizeId_normalizeId (id : Text) : normalizeId (normalizeId id) = normalizeId id := by
  rw [normalizeId_eq (normalizeId id), trim_normalizeId, normalizeId_eq, Text.shown_ofChars,
    List.map_map]
  simp only [Function.comp_def, joinWords_upperChar_twice]

theorem blank_not_mem_normalizeId (id : Text) : (0x20 : UInt8) ∉ normalizeId id := by
  intro hmem
  obtain ⟨byte, _, hbyte⟩ := List.mem_map.mp hmem
  split at hbyte
  case isTrue => exact absurd hbyte (by decide)
  case isFalse hkept => exact hkept (by simp [hbyte])

/-- A word without white space stays in a tag, in upper case. -/
theorem ofChars_infix_normalizeId {word : List Char} {id : Text} (h : Text.ofChars word <:+: id)
    (hword : word.any Text.isBlank = false) :
    Text.ofChars (word.map fun c => joinWords (Text.upperChar c)) <:+: normalizeId id := by
  rw [normalizeId_eq]
  exact Text.ofChars_infix_ofChars ((Text.infix_shown_trim h hword).map _)

/-! ## Building a catalog -/

theorem buildFrom_eq_ok_iff {accepted categories built : List Category}
    (haccepted : (accepted.map (·.id)).Nodup) :
    buildFrom accepted categories = .ok built ↔
      (∀ category ∈ categories, normalizeId category.id ≠ []) ∧
        ((accepted ++ categories.map Category.normalized).map (·.id)).Nodup ∧
        built = accepted ++ categories.map Category.normalized := by
  induction categories generalizing accepted with
  | nil =>
      rw [buildFrom, Except.ok.injEq, List.map_nil, List.append_nil]
      exact ⟨fun h => ⟨by simp, haccepted, h.symm⟩, fun h => h.2.2.symm⟩
  | cons category rest ih =>
      have hlist : accepted ++ (category :: rest).map Category.normalized =
          (accepted ++ [category.normalized]) ++ rest.map Category.normalized := by simp
      rw [hlist]
      by_cases hempty : normalizeId category.id = []
      · simp [buildFrom, hempty]
      by_cases hknown : ∃ known ∈ accepted, known.id = normalizeId category.id
      · have hany : (accepted.any fun known => known.id = normalizeId category.id) = true := by
          simpa using hknown
        have hrepeats : ¬((accepted ++ [category.normalized]).map (·.id)).Nodup := by
          obtain ⟨known, hmem, hid⟩ := hknown
          rw [List.map_append, List.nodup_append]
          rintro ⟨_, _, hdisjoint⟩
          exact hdisjoint known.id (List.mem_map_of_mem hmem) _ (List.mem_singleton.mpr rfl) hid
        constructor
        · intro h
          simp only [buildFrom, List.isEmpty_iff, hempty, if_false, hany, if_true] at h
          cases h
        · rintro ⟨_, hnodup, _⟩
          rw [List.map_append] at hnodup
          exact absurd (List.nodup_append.mp hnodup).1 hrepeats
      · have hany : (accepted.any fun known => known.id = normalizeId category.id) = false := by
          simpa using hknown
        have hnodup : ((accepted ++ [category.normalized]).map (·.id)).Nodup := by
          rw [List.map_append, List.nodup_append]
          refine ⟨haccepted, by simp, ?_⟩
          intro id hid other hother hsame
          obtain ⟨known, hmem, rfl⟩ := List.mem_map.mp hid
          exact hknown ⟨known, hmem, hsame.trans (List.mem_singleton.mp hother)⟩
        simp only [buildFrom, List.isEmpty_iff, hempty, if_false, hany, Bool.false_eq_true]
        rw [← Category.normalized, ih hnodup]
        simp [hempty]

/-- **Which categories make a catalog**: those whose tags are present and distinct in normal form.
The catalog holds them with their tags in normal form. -/
theorem build_eq_ok_iff {categories : List Category} {catalog : Catalog} :
    build categories = .ok catalog ↔
      (∀ category ∈ categories, normalizeId category.id ≠ []) ∧
        (categories.map fun category => normalizeId category.id).Nodup ∧
        catalog.categories = categories.map Category.normalized := by
  have hfrom : build categories = .ok catalog ↔
      buildFrom [] categories = .ok catalog.categories := by
    rw [build]
    cases buildFrom [] categories with
    | error error => simp
    | ok built =>
        cases catalog
        simp
  have hnone : (([] : List Category).map (·.id)).Nodup := List.nodup_nil
  rw [hfrom, buildFrom_eq_ok_iff hnone, List.nil_append, List.map_map]
  rfl

/-- The tags of the catalog are present, distinct and in normal form. -/
structure IsProper (catalog : Catalog) : Prop where
  present : ∀ category ∈ catalog.categories, category.id ≠ []
  distinct : (catalog.categories.map (·.id)).Nodup
  normal : ∀ category ∈ catalog.categories, normalizeId category.id = category.id

theorem isProper_of_build {categories : List Category} {catalog : Catalog}
    (h : build categories = .ok catalog) : catalog.IsProper := by
  obtain ⟨hpresent, hnodup, hcategories⟩ := build_eq_ok_iff.mp h
  have hgiven : ∀ category ∈ catalog.categories,
      ∃ given ∈ categories, given.normalized = category := by
    intro category hcategory
    rw [hcategories] at hcategory
    exact List.mem_map.mp hcategory
  refine ⟨?_, ?_, ?_⟩
  · intro category hcategory
    obtain ⟨given, hmem, rfl⟩ := hgiven category hcategory
    exact hpresent given hmem
  · rw [hcategories, List.map_map]
    exact hnodup
  · intro category hcategory
    obtain ⟨given, _, rfl⟩ := hgiven category hcategory
    exact normalizeId_normalizeId given.id

theorem IsProper.tags_eq {catalog : Catalog} (h : catalog.IsProper) :
    (catalog.categories.map fun category => normalizeId category.id) =
      catalog.categories.map (·.id) :=
  List.map_congr_left h.normal

/-- A proper catalog is built again from its categories. -/
theorem IsProper.build_categories {catalog : Catalog} (h : catalog.IsProper) :
    build catalog.categories = .ok catalog := by
  have hsame : ∀ category ∈ catalog.categories, category.normalized = category := by
    intro category hcategory
    rw [Category.normalized, h.normal category hcategory]
  refine build_eq_ok_iff.mpr ⟨?_, ?_, ?_⟩
  · intro category hcategory
    rw [h.normal category hcategory]
    exact h.present category hcategory
  · rw [h.tags_eq]
    exact h.distinct
  · rw [List.map_congr_left hsame, List.map_id']

theorem blank_not_mem_of_build {categories : List Category} {catalog : Catalog}
    (h : build categories = .ok catalog) :
    ∀ category ∈ catalog.categories, (0x20 : UInt8) ∉ category.id := by
  obtain ⟨_, _, hcategories⟩ := build_eq_ok_iff.mp h
  intro category hcategory
  rw [hcategories] at hcategory
  obtain ⟨given, _, rfl⟩ := List.mem_map.mp hcategory
  exact blank_not_mem_normalizeId given.id

/-- The catalog that comes with the library is a built one. -/
theorem build_builtin : build builtin.categories = .ok builtin := by
  have hproper : builtin.IsProper :=
    ⟨by decide +kernel, by decide +kernel, by decide +kernel⟩
  exact hproper.build_categories

end Catalog

end Shortfall

import Shortfall.Proofs.Catalog.Merge
import Shortfall.Proofs.Files

/-!
# What override packs do to matching

Packs are merged one category after the other into a plain list, and a catalog is built from the
list in the end. Two views of a list of categories are enough to follow this. Its tags, in normal
form, are a list to which each pack appends the tags that are new (`tags_mergeCategories`): so they
stay distinct, and the outcome is a catalog unless one of them is empty. The phrases that trigger
one of its categories are those that did before and those that the pack says
(`triggers_mergeCategories`). Neither view depends on which category of the list takes up an
addition, or on the order of the packs.

## Main results

* `run_loadPacks`: the packs of a directory of a tree are what its files say, and reading them
  changes nothing.
* `packs_extend_catalog_exactly`: what the packs of a directory do to a catalog.
-/

namespace Shortfall

namespace Catalog

/-! ## Pack files -/

/-- The categories that pack files add. -/
def additionsOf (directory : Text) (files : List PackFile) : List Category :=
  (files.filter fun file => isPackName file.name).flatMap (·.additions directory)

theorem applyPacks_eq (directory : Text) (files : List PackFile) (base : Catalog) :
    (applyPacks directory files base).2 =
      build (mergeCategories base.categories (additionsOf directory files)) := by
  rw [applyPacks, additionsOf, mergeCategories, List.foldl_flatMap]
  rfl

theorem mem_additions {file : PackFile} {directory : Text} {category : Category} :
    category ∈ file.additions directory ↔
      file.isEnabled = true ∧ ∃ document content, file.content = .ok content ∧
        Document.parse content = .ok document ∧ category ∈ document.categories := by
  rw [PackFile.additions, PackFile.document]
  cases hcontent : file.content with
  | error error => simp
  | ok content =>
      cases hparse : Document.parse content with
      | error fault => simp [hparse]
      | ok document =>
          cases henabled : file.isEnabled with
          | false => simp [hparse]
          | true => simp [hparse]

/-! ## A directory of a tree -/

/-- The pack files of a directory with the given entries, as far as they can be read. -/
def packFiles (tree : FileTree) (directory : Text) (entries : List Files.Entry) : List PackFile :=
  (entries.filter fun entry => !entry.isDirectory && isPackName entry.name).map fun entry =>
    { name := entry.name, content := tree.read (Path.join directory entry.name) }

theorem run_readAll (tree : FileTree) (directory : Text) (entries : List Files.Entry) :
    StateT.run (readAll directory entries : StateM FileTree (List PackFile)) tree =
      (packFiles tree directory entries, tree) := by
  induction entries with
  | nil => rfl
  | cons entry rest ih =>
      rw [readAll, packFiles, List.filter_cons]
      cases hpack : (!entry.isDirectory && isPackName entry.name) with
      | false =>
          have hskip : (entry.isDirectory || !isPackName entry.name) = true := by
            rw [← Bool.not_not (entry.isDirectory || _), Bool.not_or, Bool.not_not, hpack]
            rfl
          simp only [hskip, if_true, Bool.false_eq_true, if_false]
          exact ih
      | true =>
          have hread : (entry.isDirectory || !isPackName entry.name) = false := by
            rw [← Bool.not_not (entry.isDirectory || _), Bool.not_or, Bool.not_not, hpack]
            rfl
          simp only [hread, if_true, Bool.false_eq_true, if_false, List.map_cons]
          show ({ name := entry.name, content := tree.read (Path.join directory entry.name) } ::
              (StateT.run (readAll directory rest : StateM FileTree (List PackFile)) tree).1,
            (StateT.run (readAll directory rest : StateM FileTree (List PackFile)) tree).2) = _
          rw [ih]
          rfl

/-- The packs of a directory are what its files say, and reading them changes nothing. -/
theorem run_loadPacks {tree : FileTree} {directory : Text} {entries : List Files.Entry}
    (h : tree.list directory = .ok entries) (base : Catalog) :
    StateT.run (loadPacks directory base : StateM FileTree (List PackInfo × _)) tree =
      (((applyPacks directory (packFiles tree directory entries) base).1,
        (applyPacks directory (packFiles tree directory entries) base).2.mapError .invalid),
        tree) := by
  have hlist : StateT.run (Files.list directory : StateM FileTree _) tree =
      (tree.list directory, tree) := rfl
  rw [loadPacks, FileTree.run_bind_of_run hlist, h]
  rw [FileTree.run_bind_of_run (run_readAll tree directory entries)]
  obtain ⟨infos, merged⟩ := applyPacks directory (packFiles tree directory entries) base
  cases merged <;> rfl

theorem run_loadPacks_of_missing {tree : FileTree} {directory : Text} {error : Files.Error}
    (h : tree.list directory = .error error) (hmissing : error.isNotFound = true)
    (base : Catalog) :
    StateT.run (loadPacks directory base : StateM FileTree (List PackInfo × _)) tree =
      (([], .ok base), tree) := by
  have hlist : StateT.run (Files.list directory : StateM FileTree _) tree =
      (tree.list directory, tree) := rfl
  rw [loadPacks, FileTree.run_bind_of_run hlist, h]
  show (([], if error.isNotFound = true then Except.ok base
    else Except.error (LoadError.unreadable error)), tree) = _
  rw [if_pos hmissing]

/-- The document is that of an enabled pack in a directory, which can be read. -/
def AppliesPack (tree : FileTree) (directory : Text) (document : Document) : Prop :=
  ∃ entries name content, tree.list directory = .ok entries ∧
    { name, isDirectory := false } ∈ entries ∧ isPackName name = true ∧
    (Path.stem name).startsWith "_" = false ∧
    tree.read (Path.join directory name) = .ok content ∧ Document.parse content = .ok document

theorem mem_additionsOf_packFiles {tree : FileTree} {directory : Text}
    {entries : List Files.Entry} (h : tree.list directory = .ok entries) {category : Category} :
    category ∈ additionsOf directory (packFiles tree directory entries) ↔
      ∃ document, AppliesPack tree directory document ∧ category ∈ document.categories := by
  simp only [additionsOf, packFiles, List.mem_flatMap, List.mem_filter, List.mem_map, mem_additions]
  constructor
  · rintro ⟨_, ⟨⟨entry, ⟨hentry, hpack⟩, rfl⟩, hname⟩, henabled, document, content, hcontent,
      hparse, hcategory⟩
    have hfile : { name := entry.name, isDirectory := false } ∈ entries := by
      simp only [Bool.and_eq_true, Bool.not_eq_true'] at hpack
      rw [← hpack.1]
      exact hentry
    refine ⟨document, ⟨entries, entry.name, content, h, hfile, hname, ?_, hcontent, hparse⟩,
      hcategory⟩
    simpa [PackFile.isEnabled, PackFile.baseName] using henabled
  · rintro ⟨document, ⟨others, name, content, hothers, hentry, hname, henabled, hcontent, hparse⟩,
      hcategory⟩
    obtain rfl : others = entries := by
      rw [h] at hothers
      exact (Except.ok.inj hothers).symm
    refine ⟨_, ⟨⟨_, ⟨hentry, by simp [hname]⟩, rfl⟩, hname⟩, ?_, document, content, hcontent,
      hparse, hcategory⟩
    simpa [PackFile.isEnabled, PackFile.baseName] using henabled

theorem mapError_eq_ok_iff {α ε δ : Type} {f : ε → δ} {result : Except ε α} {a : α} :
    result.mapError f = .ok a ↔ result = .ok a := by
  cases result <;> simp [Except.mapError]

theorem exists_mapError_eq_error_iff {α ε δ : Type} {f : ε → δ} {result : Except ε α} :
    (∃ error, result.mapError f = .error error) ↔ ¬∃ a, result = .ok a := by
  cases result <;> simp [Except.mapError]

/-- **Override packs extend a catalog by what they say and by nothing else.** Loading the packs of
a directory, which may also be missing, fails exactly when an enabled pack that can be read has a
category without a tag. Otherwise a phrase relates to a category when it did before or when an
enabled pack that can be read gives the category a trigger that occurs in it; in which order the
packs are applied makes no difference to this. -/
theorem packs_extend_catalog_exactly {categories : List Category} {base : Catalog}
    (hbase : build categories = .ok base) {tree : FileTree} {directory : Text}
    (hdirectory : ∀ error, tree.list directory = .error error → error.isNotFound = true) :
    ∃ infos loaded,
      StateT.run (loadPacks directory base : StateM FileTree (List PackInfo × _)) tree =
        ((infos, loaded), tree) ∧
      ((∃ error, loaded = .error error) ↔
        ∃ document, AppliesPack tree directory document ∧
          ∃ category ∈ document.categories, normalizeId category.id = []) ∧
      ∀ merged, loaded = .ok merged →
        (∀ phrase id, merged.relates phrase id = true ↔
          base.relates phrase id = true ∨
            ∃ document, AppliesPack tree directory document ∧
              ∃ category ∈ document.categories, category.Triggers phrase id) ∧
        ∀ entries files, tree.list directory = .ok entries →
          files.Perm (packFiles tree directory entries) →
            ∃ reordered, (applyPacks directory files base).2 = .ok reordered ∧
              ∀ phrase id, reordered.relates phrase id = merged.relates phrase id := by
  cases hlist : tree.list directory with
  | error error =>
      have hnone : ∀ document, ¬AppliesPack tree directory document := by
        rintro document ⟨entries, _, _, hentries, _⟩
        rw [hlist] at hentries
        cases hentries
      refine ⟨_, _, run_loadPacks_of_missing hlist (hdirectory error hlist) base, ?_, ?_⟩
      · simp [hnone]
      · rintro _ ⟨⟩
        simp [hnone]
  | ok entries =>
      have happlied : ∀ {P : Category → Prop},
          (∃ addition ∈ additionsOf directory (packFiles tree directory entries), P addition) ↔
            ∃ document, AppliesPack tree directory document ∧
              ∃ category ∈ document.categories, P category := by
        intro P
        simp only [mem_additionsOf_packFiles hlist]
        grind
      refine ⟨_, _, run_loadPacks hlist base, ?_, ?_⟩
      · rw [exists_mapError_eq_error_iff, applyPacks_eq, build_mergeCategories_iff hbase, not_not,
          mem_tags, happlied]
      · intro merged hloaded
        rw [mapError_eq_ok_iff, applyPacks_eq] at hloaded
        have hrelates : ∀ phrase id, merged.relates phrase id = true ↔ _ :=
          fun phrase id => relates_of_build_mergeCategories hbase hloaded
        refine ⟨fun phrase id => ?_, ?_⟩
        · rw [hrelates, happlied]
        · intro others files hothers hperm
          obtain rfl : others = entries := (Except.ok.inj hothers).symm
          have hmem : ∀ category, category ∈ additionsOf directory files ↔
              category ∈ additionsOf directory (packFiles tree directory others) := fun category =>
            ((hperm.filter _).flatMap_right _).mem_iff
          have htags : [] ∉ tags (additionsOf directory files) := by
            have hbuilt := (build_mergeCategories_iff hbase).mp ⟨merged, hloaded⟩
            simpa only [mem_tags, hmem] using hbuilt
          obtain ⟨reordered, hreordered⟩ := (build_mergeCategories_iff hbase).mpr htags
          refine ⟨reordered, by rw [applyPacks_eq, hreordered], fun phrase id => ?_⟩
          rw [Bool.eq_iff_iff, relates_of_build_mergeCategories hbase hreordered, hrelates]
          simp only [hmem]

/-- A directory with a pack that extends a category under another spelling of its id, one that is
not enabled, one that is no document, a file that is no pack, and a folder with the name of one. -/
def mixedPacks : FileTree :=
  .folder [("packs", .folder [
    ("_draft.yaml", .file "categories: [{id: XSS, triggers: [draft]}]"),
    ("broken.yaml", .file "categories: ["),
    ("extra.yaml", .file "categories: [{id: xss, triggers: [beacon]}]"),
    ("notes.txt", .file "categories: [{}]"),
    ("old.yaml", .folder [])])]

/-- What the pack adds. -/
def extraCategory : Category where
  id := "xss"
  triggers := ["beacon"]

/-- What the two documents say. -/
private theorem parse_mixedPacks :
    (Document.parse "categories: [{id: xss, triggers: [beacon]}]").toOption.map (·.categories) =
        some [extraCategory] ∧
      (Document.parse "categories: [").toOption.isNone = true := by
  decide +kernel

private theorem parse_extra : ∃ document,
    Document.parse "categories: [{id: xss, triggers: [beacon]}]" = .ok document ∧
      document.categories = [extraCategory] := by
  obtain ⟨hcategories, _⟩ := parse_mixedPacks
  cases hparse : Document.parse "categories: [{id: xss, triggers: [beacon]}]" with
  | error fault =>
      rw [hparse] at hcategories
      cases hcategories
  | ok document =>
      rw [hparse] at hcategories
      exact ⟨document, rfl, Option.some.inj hcategories⟩

/-- The enabled pack is the only one that says something. -/
theorem mixedPacks_applied {document : Document} (h : AppliesPack mixedPacks "packs" document) :
    document.categories = [extraCategory] := by
  obtain ⟨entries, name, content, hlist, hentry, hname, henabled, hcontent, hparse⟩ := h
  have hentries : mixedPacks.list "packs" = .ok [
      ⟨"_draft.yaml", false⟩, ⟨"broken.yaml", false⟩, ⟨"extra.yaml", false⟩,
      ⟨"notes.txt", false⟩, ⟨"old.yaml", true⟩] := rfl
  rw [hentries, Except.ok.injEq] at hlist
  rw [← hlist] at hentry
  simp only [List.mem_cons, Files.Entry.mk.injEq, List.not_mem_nil, or_false, and_true] at hentry
  rcases hentry with rfl | rfl | rfl | rfl | ⟨_, hfolder⟩
  · exact absurd henabled (by decide)
  · have hread : mixedPacks.read (Path.join "packs" "broken.yaml") = .ok "categories: [" := rfl
    rw [hread, Except.ok.injEq] at hcontent
    obtain ⟨_, hbroken⟩ := parse_mixedPacks
    rw [hcontent, hparse] at hbroken
    cases hbroken
  · have hread : mixedPacks.read (Path.join "packs" "extra.yaml") =
        .ok "categories: [{id: xss, triggers: [beacon]}]" := rfl
    rw [hread, Except.ok.injEq] at hcontent
    obtain ⟨extra, hextra, hcategories⟩ := parse_extra
    rw [hcontent, hparse, Except.ok.injEq] at hextra
    rw [hextra, hcategories]
  · exact absurd hname (by decide)
  · cases hfolder

private theorem mixedPacks_applies :
    ∃ document, AppliesPack mixedPacks "packs" document ∧ extraCategory ∈ document.categories := by
  obtain ⟨document, hparse, hcategories⟩ := parse_extra
  refine ⟨document, ⟨_, "extra.yaml", _, rfl, by decide, by decide, by decide, rfl, hparse⟩, ?_⟩
  rw [hcategories]
  exact List.mem_singleton_self _

/-- The pack adds a match and the others add none. -/
theorem mixedPacks_add_match :
    build builtin.categories = .ok builtin ∧
      (∀ error, mixedPacks.list "packs" = .error error → error.isNotFound = true) ∧
      ∃ infos merged,
        StateT.run (loadPacks "packs" builtin : StateM FileTree (List PackInfo × _)) mixedPacks =
          ((infos, .ok merged), mixedPacks) ∧
        builtin.relates "a beacon" "XSS" = false ∧ merged.relates "a beacon" "XSS" = true ∧
        merged.relates "draft" "XSS" = false := by
  have hdirectory : ∀ error, mixedPacks.list "packs" = .error error → error.isNotFound = true := by
    intro error herror
    cases herror
  obtain ⟨infos, loaded, hrun, hfails, hmerged⟩ :=
    packs_extend_catalog_exactly build_builtin hdirectory
  refine ⟨build_builtin, hdirectory, ?_⟩
  cases loaded with
  | error error =>
      obtain ⟨document, happlies, category, hcategory, hempty⟩ := hfails.mp ⟨error, rfl⟩
      rw [mixedPacks_applied happlies] at hcategory
      rw [List.mem_singleton.mp hcategory] at hempty
      exact absurd hempty (by decide)
  | ok merged =>
      have hrelates := (hmerged merged rfl).1
      refine ⟨infos, merged, hrun, by decide +kernel, ?_, ?_⟩
      · obtain ⟨document, happlies, hcategory⟩ := mixedPacks_applies
        exact (hrelates "a beacon" "XSS").mpr
          (.inr ⟨document, happlies, extraCategory, hcategory, by decide⟩)
      · rw [← Bool.not_eq_true, hrelates "draft" "XSS", not_or]
        refine ⟨by decide +kernel, ?_⟩
        rintro ⟨document, happlies, category, hcategory, htriggers⟩
        rw [mixedPacks_applied happlies] at hcategory
        rw [List.mem_singleton.mp hcategory] at htriggers
        exact absurd htriggers (by decide)

end Catalog

end Shortfall

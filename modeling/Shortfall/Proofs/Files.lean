import Shortfall.Files.Tree
import Shortfall.Proofs.Path

/-!
# Files that are written and removed

What is put at a place is found there afterwards. A file that is put where no folder was leaves the
folders of the tree in their places, so every path that led somewhere before leads to the same place
afterwards. A path whose place is not a folder has a folder above it, and so the file there can be
written. Taking a file away leaves the folders in their places too, and every other file.

## Main results

* `update_of_read`: a file that is there can be changed, and reads as what it was changed to.
* `update_of_missing`: a file that is missing can be made, if its path leads to a place.
* `read_of_remove`: a file stays as it is when one with another name is taken away.
-/

namespace Shortfall.FileTree

open Files NameMap

variable {tree changed content : FileTree} {place : Place}

/-! ## Places -/

theorem find_append (tree : FileTree) (front back : Place) :
    tree.find (front ++ back) = tree.find front >>= fun child => child.find back := by
  induction front generalizing tree with
  | nil => rfl
  | cons name rest ih =>
      cases tree with
      | file _ => rfl
      | folder entries =>
          rw [List.cons_append, find, find]
          cases lookupEntry name entries with
          | none => rfl
          | some child => exact ih child

/-- There is a folder at a place. -/
def IsFolderAt (tree : FileTree) (place : Place) : Prop :=
  ∃ entries, tree.find place = .ok (folder entries)

theorem isFolderAt_of_append {front back : Place} (h : tree.IsFolderAt (front ++ back)) :
    tree.IsFolderAt front := by
  obtain ⟨entries, hfind⟩ := h
  rw [find_append] at hfind
  cases hfront : tree.find front with
  | error cause => rw [hfront] at hfind; cases hfind
  | ok child =>
      cases child with
      | folder entries => exact ⟨entries, hfront⟩
      | file text =>
          rw [hfront] at hfind
          cases back with
          | nil => cases hfind
          | cons name rest => cases hfind

theorem isFolderAt_cons_iff {entries : List (Text × FileTree)} {name : Text} {rest : Place} :
    (folder entries).IsFolderAt (name :: rest) ↔
      ∃ child, lookupEntry name entries = some child ∧ child.IsFolderAt rest := by
  rw [IsFolderAt, find]
  cases lookupEntry name entries with
  | none => simp
  | some child => simp [IsFolderAt]

/-! ## Putting something at a place -/

/-- Something is put into the folder at the front of a place, or into what is further down. -/
theorem put_cases {name : Text} {rest : Place}
    (h : tree.put (some content) (name :: rest) = .ok changed) :
    ∃ entries next, tree = folder entries ∧ changed = folder (insertEntry name next entries) ∧
      (rest = [] ∧ next = content ∨ ∃ child, lookupEntry name entries = some child ∧
        child.put (some content) rest = .ok next) := by
  cases tree with
  | file _ => cases h
  | folder entries =>
      cases rest with
      | nil =>
          cases h
          exact ⟨entries, content, rfl, rfl, .inl ⟨rfl, rfl⟩⟩
      | cons second rest =>
          rw [put] at h
          cases hchild : lookupEntry name entries with
          | none => rw [hchild] at h; cases h
          | some child =>
              cases hput : child.put (some content) (second :: rest) with
              | error cause => simp only [hchild, hput] at h; cases h
              | ok next =>
                  simp only [hchild, hput] at h
                  cases h
                  exact ⟨entries, next, rfl, rfl, .inr ⟨child, hchild, hput⟩⟩

private theorem find_put_self (h : tree.put (some content) place = .ok changed) :
    changed.find place = .ok content := by
  induction place generalizing tree changed with
  | nil => cases h
  | cons name rest ih =>
      obtain ⟨entries, next, rfl, rfl, hnext⟩ := put_cases h
      rw [find, lookupEntry_insertEntry_self]
      rcases hnext with ⟨rfl, rfl⟩ | ⟨child, _, hput⟩
      · rfl
      · exact ih hput

/-- Something can be put into every folder. -/
theorem exists_put {parent : Place} (h : tree.IsFolderAt parent) (content : FileTree)
    (name : Text) : ∃ changed, tree.put (some content) (parent ++ [name]) = .ok changed := by
  induction parent generalizing tree with
  | nil =>
      obtain ⟨entries, hfind⟩ := h
      cases hfind
      exact ⟨_, rfl⟩
  | cons first parent ih =>
      cases tree with
      | file _ => obtain ⟨_, hfind⟩ := h; cases hfind
      | folder entries =>
          obtain ⟨child, hchild, hfolder⟩ := isFolderAt_cons_iff.mp h
          obtain ⟨next, hput⟩ := ih hfolder
          obtain ⟨second, rest, hrest⟩ := List.exists_cons_of_ne_nil
            (show parent ++ [name] ≠ [] by simp)
          rw [hrest] at hput
          refine ⟨folder (insertEntry first next entries), ?_⟩
          rw [List.cons_append, hrest, put]
          simp only [hchild, hput]

/-- A file that is put where no folder was leaves the folders in their places. -/
theorem isFolderAt_put {text : Text} (h : tree.put (some (file text)) place = .ok changed)
    (hplace : ¬tree.IsFolderAt place) {other : Place} (hother : tree.IsFolderAt other) :
    changed.IsFolderAt other := by
  induction place generalizing tree changed other with
  | nil => cases h
  | cons name rest ih =>
      obtain ⟨entries, next, rfl, rfl, hnext⟩ := put_cases h
      cases other with
      | nil => exact ⟨_, rfl⟩
      | cons first other =>
          obtain ⟨child, hchild, hfolder⟩ := isFolderAt_cons_iff.mp hother
          rw [isFolderAt_cons_iff]
          by_cases hname : first = name
          · subst hname
            refine ⟨next, lookupEntry_insertEntry_self .., ?_⟩
            rcases hnext with ⟨rfl, rfl⟩ | ⟨known, hknown, hput⟩
            · have hroot : child.IsFolderAt [] :=
                isFolderAt_of_append (show child.IsFolderAt ([] ++ other) from hfolder)
              exact absurd (isFolderAt_cons_iff.mpr ⟨child, hchild, hroot⟩) hplace
            · obtain rfl : known = child := Option.some.inj (hknown.symm.trans hchild)
              exact ih hput (fun hrest => hplace (isFolderAt_cons_iff.mpr ⟨known, hchild, hrest⟩))
                hfolder
          · exact ⟨child, by rw [lookupEntry_insertEntry_ne hname, hchild], hfolder⟩

/-! ## Taking a file away -/

def content? : FileTree → Option Text
  | file content => some content
  | folder _ => none

theorem isFolderAt_iff : tree.IsFolderAt place ↔ (tree.find place).map content? = .ok none := by
  rw [IsFolderAt]
  cases tree.find place with
  | error cause => simp [Except.map]
  | ok child => cases child <;> simp [Except.map, content?]

private theorem lookupEntry_filter_ne (name other : Text) (entries : List (Text × FileTree)) :
    lookupEntry other (entries.filter fun (key, _) => key ≠ name) =
      if other = name then none else lookupEntry other entries := by
  induction entries with
  | nil => simp [lookupEntry]
  | cons entry entries ih => grind [lookupEntry]

/-- What is taken away is missing afterwards. Everything else stays, but for the entries of the
folders above. -/
theorem find_put_none (h : tree.put none place = .ok changed) (other : Place) :
    (changed.find other).map content? =
      if place <+: other then .error .notFound else (tree.find other).map content? := by
  induction place generalizing tree changed other with
  | nil => cases h
  | cons name rest ih =>
      cases tree with
      | file _ => cases h
      | folder entries =>
          cases rest with
          | nil =>
              cases h
              cases other with
              | nil => rfl
              | cons first other =>
                  rw [find, find, lookupEntry_filter_ne]
                  by_cases hname : first = name
                  · have hfront : [name] <+: first :: other :=
                      List.cons_prefix_cons.mpr ⟨hname.symm, List.nil_prefix⟩
                    rw [if_pos hname, if_pos hfront]
                    rfl
                  · have hfront : ¬[name] <+: first :: other :=
                      fun hstart => hname (List.cons_prefix_cons.mp hstart).1.symm
                    rw [if_neg hname, if_neg hfront]
          | cons second rest =>
              rw [put] at h
              cases hchild : lookupEntry name entries with
              | none => rw [hchild] at h; cases h
              | some child =>
                  cases hput : child.put none (second :: rest) with
                  | error cause => simp only [hchild, hput] at h; cases h
                  | ok next =>
                      simp only [hchild, hput] at h
                      cases h
                      cases other with
                      | nil => rfl
                      | cons first other =>
                          rw [find, find]
                          by_cases hname : first = name
                          · subst hname
                            rw [lookupEntry_insertEntry_self, hchild]
                            simpa only [List.cons_prefix_cons, true_and] using ih hput other
                          · rw [lookupEntry_insertEntry_ne hname,
                              if_neg fun hfront => hname (List.cons_prefix_cons.mp hfront).1.symm]

/-- Behind a file there is nothing. -/
theorem eq_of_prefix_of_file {text : Text} {other : Place} {found : FileTree}
    (hfile : tree.find place = .ok (file text)) (hother : tree.find other = .ok found)
    (h : place <+: other) : place = other := by
  obtain ⟨behind, rfl⟩ := h
  rw [find_append, hfile] at hother
  cases behind with
  | nil => rw [List.append_nil]
  | cons name rest => cases hother

section Removal

variable {text : Text} (hput : tree.put none place = .ok changed)
  (hfile : tree.find place = .ok (file text))

include hput

private theorem find_put_none_of_missing {other : Place} (h : tree.find other = .error .notFound) :
    changed.find other = .error .notFound := by
  have hfind := find_put_none hput other
  rw [h, Except.map, ite_self] at hfind
  cases hchanged : changed.find other with
  | error cause => rw [hchanged] at hfind; cases hfind; rfl
  | ok child => rw [hchanged] at hfind; cases hfind

include hfile

/-- Taking a file away leaves the folders in their places. -/
theorem isFolderAt_put_none {other : Place} (h : tree.IsFolderAt other) :
    changed.IsFolderAt other := by
  have hfront : ¬place <+: other := by
    intro hfront
    obtain ⟨entries, hfolder⟩ := h
    rw [← eq_of_prefix_of_file hfile hfolder hfront, hfile] at hfolder
    cases hfolder
  rw [isFolderAt_iff, find_put_none hput, if_neg hfront]
  exact isFolderAt_iff.mp h

private theorem find_put_none_of_ne {other : Place} {known : Text} (hne : place ≠ other)
    (h : tree.find other = .ok (file known)) : changed.find other = .ok (file known) := by
  have hfind := find_put_none hput other
  rw [if_neg fun hfront => hne (eq_of_prefix_of_file hfile h hfront), h] at hfind
  cases hchanged : changed.find other with
  | error cause => rw [hchanged] at hfind; cases hfind
  | ok child =>
      rw [hchanged] at hfind
      cases child with
      | folder entries => cases hfind
      | file content => cases hfind; rfl

end Removal

/-! ## Following a path -/

/-- Where a component of a path leads from a folder, whose place is given in reverse. -/
def enter (reversed : Place) (component : Text) : Except Cause Place :=
  if component.isEmpty || component = "." then .ok reversed
  else if component = ".." then .ok reversed.tail
  else if isTooLong component then .error tooLong
  else .ok (component :: reversed)

private theorem enter_cases {reversed next : Place} {component : Text}
    (h : enter reversed component = .ok next) :
    next = reversed ∨ next = reversed.tail ∨ next = component :: reversed ∧ component ≠ [] := by
  unfold enter at h
  split at h
  · cases h
    exact .inl rfl
  next hskip =>
  split at h
  · cases h
    exact .inr (.inl rfl)
  split at h
  · cases h
  · cases h
    refine .inr (.inr ⟨rfl, ?_⟩)
    rintro rfl
    exact hskip rfl

section Paths

variable {reversed : Place} {component path : Text} {components : List Text}

private theorem isFolderAt_of_locateFrom
    (h : tree.locateFrom reversed (component :: components) = .ok place) :
    tree.IsFolderAt reversed.reverse := by
  rw [locateFrom] at h
  cases hfind : tree.find reversed.reverse with
  | error cause => rw [hfind] at h; cases h
  | ok child =>
      cases child with
      | file _ => rw [hfind] at h; cases h
      | folder entries => exact ⟨entries, hfind⟩

theorem locateFrom_cons (h : tree.IsFolderAt reversed.reverse) :
    tree.locateFrom reversed (component :: components) =
      enter reversed component >>= fun next => tree.locateFrom next components := by
  obtain ⟨entries, hfind⟩ := h
  rw [locateFrom, hfind, enter]
  dsimp only
  split
  · rfl
  split
  · rfl
  split
  · rfl
  · rfl

/-- The first component of a path that leads to a place is followed from a folder. -/
theorem locateFrom_cases (h : tree.locateFrom reversed (component :: components) = .ok place) :
    tree.IsFolderAt reversed.reverse ∧ ∃ next, enter reversed component = .ok next ∧
      tree.locateFrom next components = .ok place := by
  have hfolder := isFolderAt_of_locateFrom h
  rw [locateFrom_cons hfolder] at h
  cases hnext : enter reversed component with
  | error cause => rw [hnext] at h; cases h
  | ok next => rw [hnext] at h; exact ⟨hfolder, next, rfl, h⟩

/-- A path leads to the same place in a tree that has folders wherever there was one. -/
theorem locateFrom_of_folders
    (hfolders : ∀ other, tree.IsFolderAt other → changed.IsFolderAt other)
    (h : tree.locateFrom reversed components = .ok place) :
    changed.locateFrom reversed components = .ok place := by
  induction components generalizing reversed with
  | nil => exact h
  | cons component components ih =>
      obtain ⟨hfolder, next, hnext, hrest⟩ := locateFrom_cases h
      rw [locateFrom_cons (hfolders _ hfolder), hnext]
      exact ih hrest

/-- Above a place that a path leads to there is a folder, unless the place is one. -/
theorem isFolderAt_above (h : tree.locateFrom reversed components = .ok place)
    (habove : tree.IsFolderAt reversed.tail.reverse) (hplace : ¬tree.IsFolderAt place) :
    ∃ parent name, place = parent ++ [name] ∧ tree.IsFolderAt parent := by
  induction components generalizing reversed with
  | nil =>
      cases h
      cases reversed with
      | nil => exact absurd habove hplace
      | cons name rest => exact ⟨rest.reverse, name, List.reverse_cons, habove⟩
  | cons component components ih =>
      obtain ⟨hfolder, next, hnext, hrest⟩ := locateFrom_cases h
      refine ih hrest ?_
      rcases enter_cases hnext with rfl | rfl | ⟨rfl, _⟩
      · exact habove
      · cases reversed with
        | nil => exact habove
        | cons name rest =>
            cases rest with
            | nil => exact habove
            | cons second rest =>
                rw [List.tail_cons, List.reverse_cons] at habove
                exact isFolderAt_of_append habove
      · exact hfolder

/-- The place of a file ends with the last component of its path. -/
theorem getLast?_of_locateFrom {text : Text}
    (h : tree.locateFrom reversed (component :: components) = .ok place)
    (hfile : tree.find place = .ok (file text)) :
    ∃ name, name ≠ [] ∧ place.getLast? = some name ∧
      (component :: components).getLast? = some name := by
  have hplace : ¬tree.IsFolderAt place := by
    rintro ⟨entries, hfolder⟩
    rw [hfile] at hfolder
    cases hfolder
  induction components generalizing reversed component with
  | nil =>
      obtain ⟨hfolder, next, hnext, hrest⟩ := locateFrom_cases h
      cases hrest
      rcases enter_cases hnext with rfl | rfl | ⟨rfl, hne⟩
      · exact absurd hfolder hplace
      · cases reversed with
        | nil => exact absurd hfolder hplace
        | cons name rest =>
            rw [List.reverse_cons] at hfolder
            exact absurd (isFolderAt_of_append hfolder) hplace
      · exact ⟨component, hne, by rw [List.reverse_cons, List.getLast?_concat], rfl⟩
  | cons second components ih =>
      obtain ⟨_, next, _, hrest⟩ := locateFrom_cases h
      rw [List.getLast?_cons_cons]
      exact ih hrest

theorem locate_eq_ok (h : tree.locate path = .ok place) :
    tree.locateFrom [] (path.splitAtByte Path.slash) = .ok place ∧
      ∀ other : FileTree,
        other.locate path = other.locateFrom [] (path.splitAtByte Path.slash) := by
  unfold locate at h
  split at h
  · cases h
  split at h
  · cases h
  split at h
  · cases h
  · next hnull hempty hlong =>
      exact ⟨h, fun other => by rw [locate, if_neg hnull, if_neg hempty, if_neg hlong]⟩

theorem locate_of_folders (hfolders : ∀ other, tree.IsFolderAt other → changed.IsFolderAt other)
    (h : tree.locate path = .ok place) : changed.locate path = .ok place := by
  obtain ⟨hlocate, hagain⟩ := locate_eq_ok h
  rw [hagain]
  exact locateFrom_of_folders hfolders hlocate

theorem follow_of_folders (hfolders : ∀ other, tree.IsFolderAt other → changed.IsFolderAt other)
    {entries : List (Text × FileTree)} (h : tree.follow path = .ok (folder entries)) :
    ∃ entries, changed.follow path = .ok (folder entries) := by
  rw [follow] at h
  cases hlocate : tree.locate path with
  | error cause => rw [hlocate] at h; cases h
  | ok place =>
      rw [hlocate] at h
      rw [follow, locate_of_folders hfolders hlocate]
      exact hfolders place ⟨entries, h⟩

/-- A file can be put at the place of a path where there is no folder, and the path leads to it. -/
theorem exists_put_of_locate (h : tree.locate path = .ok place) (hplace : ¬tree.IsFolderAt place)
    (text : Text) :
    ∃ changed, tree.put (some (file text)) place = .ok changed ∧ changed.read path = .ok text := by
  obtain ⟨hlocate, _⟩ := locate_eq_ok h
  obtain ⟨parent, name, rfl, hparent⟩ : ∃ parent name, place = parent ++ [name] ∧
      tree.IsFolderAt parent := by
    obtain ⟨first, rest, hcomponents⟩ :=
      List.exists_cons_of_ne_nil (Text.splitAtByte_ne_nil Path.slash path)
    rw [hcomponents] at hlocate
    exact isFolderAt_above hlocate (isFolderAt_of_locateFrom hlocate) hplace
  obtain ⟨changed, hput⟩ := exists_put hparent (file text) name
  have hfollow := locate_of_folders (fun _ => isFolderAt_put hput hplace) h
  refine ⟨changed, hput, ?_⟩
  rw [read, follow, hfollow]
  simp only [find_put_self hput]

/-- A file that is missing can be made, if its path leads to a place. -/
theorem update_of_missing (hlocate : tree.locate path = .ok place)
    (hmissing : tree.find place = .error .notFound) (f : Text → Text) :
    ∃ changed, tree.update path f = .ok changed ∧ changed.read path = .ok (f []) := by
  have hplace : ¬tree.IsFolderAt place := by
    rintro ⟨entries, hfolder⟩
    rw [hmissing] at hfolder
    cases hfolder
  obtain ⟨changed, hput, hread⟩ := exists_put_of_locate hlocate hplace (f [])
  refine ⟨changed, ?_, hread⟩
  simp only [update, hlocate, hmissing, hput, naming]

theorem follow_of_read {text : Text} (h : tree.read path = .ok text) :
    tree.follow path = .ok (file text) := by
  rw [read] at h
  cases hfollow : tree.follow path with
  | error cause => rw [hfollow] at h; cases h
  | ok found =>
      rw [hfollow] at h
      cases found with
      | folder entries => cases h
      | file known => cases h; rfl

theorem locate_of_read {text : Text} (h : tree.read path = .ok text) :
    ∃ place, tree.locate path = .ok place ∧ tree.find place = .ok (file text) := by
  have hfollow := follow_of_read h
  rw [follow] at hfollow
  cases hlocate : tree.locate path with
  | error cause => rw [hlocate] at hfollow; cases hfollow
  | ok place => rw [hlocate] at hfollow; exact ⟨place, rfl, hfollow⟩

/-- A file that is there can be changed. -/
theorem update_of_read {text : Text} (h : tree.read path = .ok text) (f : Text → Text) :
    ∃ changed, tree.update path f = .ok changed ∧ changed.read path = .ok (f text) := by
  obtain ⟨place, hlocate, hfile⟩ := locate_of_read h
  have hplace : ¬tree.IsFolderAt place := by
    rintro ⟨entries, hfolder⟩
    rw [hfile] at hfolder
    cases hfolder
  obtain ⟨changed, hput, hread⟩ := exists_put_of_locate hlocate hplace (f text)
  refine ⟨changed, ?_, hread⟩
  simp only [update, hlocate, hfile, hput, naming]

theorem getLast?_of_locate {text : Text} (h : tree.locate path = .ok place)
    (hfile : tree.find place = .ok (file text)) :
    ∃ name, name ≠ [] ∧ place.getLast? = some name ∧
      (path.splitAtByte Path.slash).getLast? = some name := by
  obtain ⟨hlocate, _⟩ := locate_eq_ok h
  obtain ⟨first, rest, hcomponents⟩ :=
    List.exists_cons_of_ne_nil (Text.splitAtByte_ne_nil Path.slash path)
  rw [hcomponents] at hlocate ⊢
  exact getLast?_of_locateFrom hlocate hfile

theorem remove_cases (h : tree.remove path = .ok changed) :
    ∃ place text, tree.locate path = .ok place ∧ tree.find place = .ok (file text) ∧
      tree.put none place = .ok changed := by
  rw [remove] at h
  cases hlocate : tree.locate path with
  | error cause => rw [hlocate] at h; cases h
  | ok place =>
      cases hfind : tree.find place with
      | error cause => simp only [hlocate, hfind] at h; cases h
      | ok found =>
          cases found with
          | folder entries => simp only [hlocate, hfind] at h; cases h
          | file text =>
              simp only [hlocate, hfind] at h
              cases hput : tree.put none place with
              | error cause => rw [hput] at h; cases h
              | ok next => rw [hput] at h; cases h; exact ⟨place, text, rfl, hfind, hput⟩

theorem folders_of_remove (h : tree.remove path = .ok changed) (other : Place)
    (hother : tree.IsFolderAt other) : changed.IsFolderAt other := by
  obtain ⟨place, text, _, hfile, hput⟩ := remove_cases h
  exact isFolderAt_put_none hput hfile hother

theorem missing_of_remove (h : tree.remove path = .ok changed)
    (hmissing : tree.find place = .error .notFound) : changed.find place = .error .notFound := by
  obtain ⟨_, _, _, _, hput⟩ := remove_cases h
  exact find_put_none_of_missing hput hmissing

/-- A file stays as it is when one with another name is taken away. -/
theorem read_of_remove {other text : Text} (h : tree.read path = .ok text)
    (hremove : tree.remove other = .ok changed)
    (hne : (path.splitAtByte Path.slash).getLast? ≠ (other.splitAtByte Path.slash).getLast?) :
    changed.read path = .ok text := by
  obtain ⟨removed, content, hlocateRemoved, hfileRemoved, hput⟩ := remove_cases hremove
  obtain ⟨place, hlocate, hfile⟩ := locate_of_read h
  have hplace : removed ≠ place := by
    rintro rfl
    obtain ⟨_, _, hlast, hpath⟩ := getLast?_of_locate hlocate hfile
    obtain ⟨_, _, hlast', hother⟩ := getLast?_of_locate hlocateRemoved hfileRemoved
    exact hne (hpath.trans (hlast.symm.trans (hlast'.trans hother.symm)))
  rw [read, follow, locate_of_folders (folders_of_remove hremove) hlocate]
  simp only [find_put_none_of_ne hput hfileRemoved hplace hfile]

end Paths

/-! ## Runs -/

theorem run_bind_of_run {α β : Type} {action : StateM FileTree α} {tree after : FileTree} {a : α}
    (h : StateT.run action tree = (a, after)) (next : α → StateM FileTree β) :
    StateT.run (action >>= next) tree = StateT.run (next a) after := by
  rw [StateT.run_bind, h]
  rfl

theorem run_read (tree : FileTree) (path : Text) :
    StateT.run (Files.read path : StateM FileTree _) tree = (tree.read path, tree) := rfl

theorem run_stat (tree : FileTree) (path : Text) :
    StateT.run (Files.stat path : StateM FileTree _) tree =
      (naming "stat" [path] (info <$> tree.follow path), tree) := rfl

/-- Nothing is made where there is a folder. -/
theorem run_makeDirectories_of_folder {directory : Text} {entries : List (Text × FileTree)}
    (h : tree.follow directory = .ok (folder entries)) :
    StateT.run (Files.makeDirectories directory : StateM FileTree _) tree = (.ok ⟨⟩, tree) := by
  rw [Files.makeDirectories, Files.makeInnermost, run_bind_of_run (run_stat tree _), h]
  rfl

theorem run_list (tree : FileTree) (path : Text) :
    StateT.run (Files.list path : StateM FileTree _) tree = (tree.list path, tree) := rfl

/-- A change is kept if it succeeds. -/
theorem run_keep (change : FileTree → Except Error FileTree) (tree : FileTree) :
    StateT.run (keep change) tree =
      match change tree with
      | .ok changed => (.ok ⟨⟩, changed)
      | .error error => (.error error, tree) := by
  have hget : StateT.run (get : StateM FileTree FileTree) tree = (tree, tree) := rfl
  rw [keep, run_bind_of_run hget]
  cases change tree <;> rfl

theorem run_append {path text : Text} (h : tree.update path (· ++ text) = .ok changed) :
    StateT.run (Files.append path text : StateM FileTree _) tree = (.ok ⟨⟩, changed) := by
  refine (run_keep _ tree).trans ?_
  rw [h]

theorem run_write {path text : Text} (h : tree.update path (fun _ => text) = .ok changed) :
    StateT.run (Files.write path text : StateM FileTree _) tree = (.ok ⟨⟩, changed) := by
  refine (run_keep _ tree).trans ?_
  rw [h]

theorem run_remove (tree : FileTree) (path : Text) :
    StateT.run (Files.remove path : StateM FileTree _) tree =
      match tree.remove path with
      | .ok changed => (.ok ⟨⟩, changed)
      | .error error => (.error error, tree) :=
  run_keep _ tree

end Shortfall.FileTree

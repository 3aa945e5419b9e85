import Mathlib.Data.Multiset.AddSub
import Shortfall.Proofs.Collections
import Shortfall.Proofs.Files

/-!
# The files of a directory

A directory that holds nothing but files is a map from names to contents (`FileTree.HasFiles`). A
path that is joined from the directory and a name leads to the file of that name: cleaning the path
follows the same folders as the path itself, as far as they are there (`locate_join`). So what the
paths of the directory lead to, and what moving one of its files does, can be read off the map.

The contents of a directory are counted as often as they occur (`NameMap.contents`). Moving a file
keeps them, except for the content of a file that was under the new name (`contents_move`).

## Main results

* `locate_join`, `follow_join_iff`: where the path of a name leads.
* `rename_join`: moving a file within its directory moves an entry of the map.
* `NameMap.contents_move`: what that does to the contents.
-/

namespace Shortfall

/-! ## Maps whose entries are moved -/

namespace NameMap

variable {α : Type}

def remove (map : NameMap α) (key : Text) : NameMap α where
  entries := map.entries.filter (·.1 ≠ key)
  ascend := map.ascend.filter _

@[simp] theorem get?_remove (map : NameMap α) (key other : Text) :
    (map.remove key).get? other = if other = key then none else map.get? other := by
  apply Option.ext
  intro value
  rw [← mem_entries_iff, remove, List.mem_filter, mem_entries_iff]
  split
  · next heq => simp [heq]
  · next hne => simp [hne]

theorem mem_keys_iff {map : NameMap α} {key : Text} :
    key ∈ map.keys ↔ ∃ value, map.get? key = some value := by
  rw [keys, List.mem_map]
  constructor
  · rintro ⟨⟨_, value⟩, hentry, rfl⟩
    exact ⟨value, mem_entries_iff.mp hentry⟩
  · rintro ⟨value, hget⟩
    exact ⟨(key, value), mem_entries_iff.mpr hget, rfl⟩

private theorem nodup_entries (map : NameMap α) : map.entries.Nodup := by
  refine map.ascend.imp ?_
  intro entry other hlt heq
  rw [heq] at hlt
  exact List.lt_irrefl other.1 hlt

/-- An entry and the others. -/
theorem entries_perm_cons {map : NameMap α} {key : Text} {value : α}
    (h : map.get? key = some value) :
    map.entries.Perm ((key, value) :: (map.remove key).entries) := by
  have hremoved : (key, value) ∉ (map.remove key).entries := by
    rw [mem_entries_iff, get?_remove, if_pos rfl]
    exact nofun
  rw [List.perm_ext_iff_of_nodup map.nodup_entries
    (List.nodup_cons.mpr ⟨hremoved, (map.remove key).nodup_entries⟩)]
  rintro ⟨other, content⟩
  rw [List.mem_cons, mem_entries_iff, mem_entries_iff, get?_remove, Prod.mk.injEq]
  by_cases heq : other = key
  · rw [heq, h, if_pos rfl]
    simp [eq_comm]
  · simp [heq]

/-- The contents of files, each as often as it occurs. -/
def contents (files : NameMap Text) : Multiset Text := (files.entries.map (·.2) : List Text)

theorem contents_eq_cons {files : NameMap Text} {name content : Text}
    (h : files.get? name = some content) :
    files.contents = content ::ₘ (files.remove name).contents :=
  Multiset.coe_eq_coe.mpr ((entries_perm_cons h).map _)

/-- The files after the one with the given content was moved. -/
def move (files : NameMap Text) (source target content : Text) : NameMap Text :=
  (files.insert target content).remove source

section Move

variable {files : NameMap Text} {source target content : Text}

theorem get?_move (files : NameMap Text) (source target content name : Text) :
    (files.move source target content).get? name =
      if name = source then none
      else if name = target then some content else files.get? name := by
  rw [move, get?_remove, get?_insert]

theorem mem_keys_of_mem_keys_move {name : Text}
    (h : name ∈ (files.move source target content).keys) : name = target ∨ name ∈ files.keys := by
  obtain ⟨known, hknown⟩ := mem_keys_iff.mp h
  rw [get?_move] at hknown
  split at hknown
  · cases hknown
  split at hknown
  · next heq => exact .inl heq
  · exact .inr (mem_keys_iff.mpr ⟨known, hknown⟩)

/-- **Moving a file costs the content that it replaces**, and nothing else. -/
theorem contents_move (hne : source ≠ target) (h : files.get? source = some content) :
    files.contents =
      (files.move source target content).contents + ((files.get? target).toList : List Text) := by
  -- Both sides have the moved content and that of the files under other names.
  have hothers : (files.move source target content).remove target =
      (files.remove source).remove target := by
    apply eq_of_get?_eq
    intro name
    simp only [get?_remove, get?_move]
    grind
  have hmoved : (files.move source target content).contents =
      content ::ₘ ((files.remove source).remove target).contents := by
    rw [← hothers]
    exact contents_eq_cons (by rw [get?_move, if_neg hne.symm, if_pos rfl])
  rw [contents_eq_cons h, hmoved, Multiset.cons_add]
  congr 1
  cases htarget : files.get? target with
  | none =>
      have hsame : (files.remove source).remove target = files.remove source := by
        apply eq_of_get?_eq
        intro name
        simp only [get?_remove]
        grind
      rw [hsame]
      simp
  | some replaced =>
      have hthere : (files.remove source).get? target = some replaced := by
        rw [get?_remove, if_neg hne.symm, htarget]
      rw [contents_eq_cons hthere, Multiset.add_comm]
      rfl

end Move

end NameMap

namespace FileTree

open Files NameMap

/-! ## Following joined paths -/

/-- A name that a path can go through. -/
def IsPassable (name : Text) : Prop :=
  name ≠ [] ∧ name ≠ "." ∧ name ≠ ".." ∧ isTooLong name = false

section Paths

variable {tree : FileTree} {place reversed next : Place} {component directory name : Text}

private theorem enter_of_isPassable (h : IsPassable name) (reversed : Place) :
    enter reversed name = .ok (name :: reversed) := by
  obtain ⟨hne, hhere, habove, hshort⟩ := h
  rw [enter, if_neg (by simp [hne, hhere]), if_neg habove, hshort]
  rfl

/-- Cleaning keeps, behind some steps upwards, the names that lead to a place. -/
theorem push_of_enter (h : enter reversed component = .ok next)
    (hnames : ∀ name ∈ reversed, IsPassable name) (absolute : Bool) (up : Nat) :
    (∃ more, Path.push absolute (reversed ++ List.replicate up (".." : Text)) component =
      next ++ List.replicate more (".." : Text)) ∧ ∀ name ∈ next, IsPassable name := by
  unfold enter at h
  unfold Path.push
  split at h
  · next hskip =>
      cases h
      exact ⟨⟨up, if_pos hskip⟩, hnames⟩
  next hskip =>
  rw [if_neg hskip]
  split at h
  · next habove =>
      cases h
      rw [if_pos habove]
      cases reversed with
      | nil =>
          refine ⟨?_, by simp⟩
          cases up with
          | zero =>
              cases absolute with
              | false => exact ⟨1, by rw [habove]; rfl⟩
              | true => exact ⟨0, rfl⟩
          | succ up => exact ⟨up + 2, by rw [habove]; rfl⟩
      | cons last reversed =>
          rw [List.forall_mem_cons] at hnames
          exact ⟨⟨up, if_neg hnames.1.2.2.1⟩, hnames.2⟩
  next habove =>
  rw [if_neg habove]
  split at h
  · cases h
  next hshort =>
  cases h
  simp only [Bool.or_eq_true, List.isEmpty_iff, decide_eq_true_eq, not_or] at hskip
  refine ⟨⟨up, rfl⟩, List.forall_mem_cons.mpr ⟨⟨hskip.1, hskip.2, habove, ?_⟩, hnames⟩⟩
  exact Bool.eq_false_of_not_eq_true hshort

private theorem foldl_push_of_locateFrom {components : List Text}
    (h : tree.locateFrom reversed components = .ok place)
    (hnames : ∀ name ∈ reversed, IsPassable name) (absolute : Bool) (up : Nat) :
    (∃ more, components.foldl (Path.push absolute) (reversed ++ List.replicate up (".." : Text)) =
      place.reverse ++ List.replicate more (".." : Text)) ∧ ∀ name ∈ place, IsPassable name := by
  induction components generalizing reversed up with
  | nil =>
      cases h
      refine ⟨⟨up, by rw [List.reverse_reverse]; rfl⟩, fun name hname => ?_⟩
      exact hnames name (List.mem_reverse.mp hname)
  | cons component components ih =>
      obtain ⟨_, next, hnext, hrest⟩ := locateFrom_cases h
      obtain ⟨⟨more, hpush⟩, hpassable⟩ := push_of_enter hnext hnames absolute up
      rw [List.foldl_cons, hpush]
      exact ih hrest hpassable more

/-- Cleaning the path of a place leaves steps upwards and the names that lead to it. -/
theorem components_of_locate (h : tree.locate directory = .ok place) :
    (∃ up, Path.components directory = List.replicate up (".." : Text) ++ place) ∧
      ∀ name ∈ place, IsPassable name := by
  obtain ⟨hlocate, _⟩ := locate_eq_ok h
  obtain ⟨⟨up, hpush⟩, hpassable⟩ :=
    foldl_push_of_locateFrom hlocate (by simp) (Path.isAbsolute directory) 0
  refine ⟨⟨up, ?_⟩, hpassable⟩
  have hempty : ([] : Place) ++ List.replicate 0 (".." : Text) = [] := rfl
  rw [hempty] at hpush
  rw [Path.components, hpush, List.reverse_append, List.reverse_replicate, List.reverse_reverse]

/-- Above the root there is the root. -/
theorem locateFrom_upwards (hroot : tree.IsFolderAt []) (up : Nat) (rest : List Text) :
    tree.locateFrom [] (List.replicate up (".." : Text) ++ rest) = tree.locateFrom [] rest := by
  induction up with
  | zero => rfl
  | succ up ih =>
      rw [List.replicate_succ, List.cons_append, locateFrom_cons hroot]
      exact ih

/-- The names of a place lead to it. -/
theorem locateFrom_names {names : List Text} (hnames : ∀ name ∈ names, IsPassable name)
    (hfolder : tree.IsFolderAt (reversed.reverse ++ names)) (rest : List Text) :
    tree.locateFrom reversed (names ++ rest) =
      tree.locateFrom (names.reverse ++ reversed) rest := by
  induction names generalizing reversed with
  | nil => rfl
  | cons name names ih =>
      rw [List.forall_mem_cons] at hnames
      rw [List.cons_append, locateFrom_cons (isFolderAt_of_append hfolder),
        enter_of_isPassable hnames.1]
      have hnext : tree.IsFolderAt ((name :: reversed).reverse ++ names) := by
        rwa [List.reverse_cons, List.append_assoc, List.singleton_append]
      show tree.locateFrom (name :: reversed) (names ++ rest) = _
      rw [ih hnames.2 hnext, List.reverse_cons, List.append_assoc, List.singleton_append]

/-- A name whose path is followed in a directory: neither is too long, and no byte is zero. -/
structure InReach (directory name : Text) : Prop where
  zero_not_mem : 0 ∉ Path.join directory name
  path_short : (Path.join directory name).length < pathLimit
  name_short : isTooLong name = false

private theorem ne_nil_of_locate (h : tree.locate directory = .ok place) : directory ≠ [] := by
  rintro rfl
  cases h

/-- **The path of a name in a directory** leads to the directory's place and then to the name. -/
theorem locate_join (h : tree.locate directory = .ok place) (hfolder : tree.IsFolderAt place)
    (hname : Path.IsName name) :
    (InReach directory name → tree.locate (Path.join directory name) = .ok (place ++ [name])) ∧
    (¬InReach directory name → ∃ cause, tree.locate (Path.join directory name) = .error cause) := by
  have hdirectory := ne_nil_of_locate h
  have hroot : tree.IsFolderAt [] :=
    isFolderAt_of_append (show tree.IsFolderAt ([] ++ place) from hfolder)
  have hwalk : tree.locateFrom [] ((Path.join directory name).splitAtByte Path.slash) =
      enter place.reverse name >>= fun next => .ok next.reverse := by
    obtain ⟨⟨up, hcomponents⟩, hpassable⟩ := components_of_locate h
    have hplace : tree.IsFolderAt place.reverse.reverse := by rwa [List.reverse_reverse]
    have hwhole : tree.locateFrom [] (Path.components directory ++ [name]) =
        enter place.reverse name >>= fun next => .ok next.reverse := by
      rw [hcomponents, List.append_assoc, locateFrom_upwards hroot,
        locateFrom_names hpassable hfolder, List.append_nil, locateFrom_cons hplace]
      rfl
    rw [Path.splitAtByte_join hdirectory hname]
    split
    · rw [List.singleton_append, locateFrom_cons hroot]
      exact hwhole
    · exact hwhole
  have hempty : (Path.join directory name).isEmpty = false := by
    rw [Path.join_eq hdirectory hname, List.isEmpty_eq_false_iff]
    exact List.append_ne_nil_of_right_ne_nil _ hname.ne_nil
  constructor
  · rintro ⟨hzero, hpath, hshort⟩
    have hpassable : IsPassable name := ⟨hname.ne_nil, hname.ne_here, hname.ne_above, hshort⟩
    rw [locate, if_neg (by simpa using hzero), hempty, if_neg Bool.false_ne_true,
      if_neg (Nat.not_le.mpr hpath), hwalk, enter_of_isPassable hpassable]
    show Except.ok (name :: place.reverse).reverse = _
    rw [List.reverse_cons, List.reverse_reverse]
  · intro hbeyond
    unfold locate
    split
    · exact ⟨_, rfl⟩
    split
    · exact ⟨_, rfl⟩
    split
    · exact ⟨_, rfl⟩
    · next hzero _ hpath =>
        have hlong : isTooLong name = true := by
          rw [← Bool.not_eq_false]
          exact fun hshort => hbeyond ⟨by simpa using hzero, Nat.not_le.mp hpath, hshort⟩
        rw [hwalk, enter, if_neg (by simp [hname.ne_nil, hname.ne_here]), if_neg hname.ne_above,
          if_pos hlong]
        exact ⟨_, rfl⟩

/-- A shorter name is in reach with a longer one that has its bytes. -/
theorem InReach.of_shorter {longer : Text} (hdirectory : directory ≠ []) (hname : Path.IsName name)
    (hlonger : Path.IsName longer) (hbytes : name ⊆ longer) (hlength : name.length ≤ longer.length)
    (h : InReach directory longer) : InReach directory name := by
  obtain ⟨hzero, hpath, hshort⟩ := h
  rw [Path.join_eq hdirectory hlonger] at hzero hpath
  rw [List.length_append] at hpath
  rw [List.mem_append, not_or] at hzero
  refine ⟨?_, ?_, ?_⟩
  · rw [Path.join_eq hdirectory hname, List.mem_append, not_or]
    exact ⟨hzero.1, fun hmem => hzero.2 (hbytes hmem)⟩
  · rw [Path.join_eq hdirectory hname, List.length_append]
    omega
  · simp only [isTooLong, decide_eq_false_iff_not] at hshort ⊢
    omega

end Paths

/-! ## Changing what is in a folder -/

/-- Something is put into the folder at a place. If the folders below it stay, so do all others. -/
theorem exists_put_below {tree child next : FileTree} {content? : Option FileTree}
    {place rest : Place} {name : Text} (hfind : tree.find place = .ok child)
    (hput : child.put content? (name :: rest) = .ok next)
    (hkeeps : ∀ other, child.IsFolderAt other → next.IsFolderAt other) :
    ∃ changed, tree.put content? (place ++ name :: rest) = .ok changed ∧
      changed.find place = .ok next ∧
      ∀ other, tree.IsFolderAt other → changed.IsFolderAt other := by
  induction place generalizing tree with
  | nil =>
      cases hfind
      exact ⟨next, hput, rfl, hkeeps⟩
  | cons first place ih =>
      cases tree with
      | file _ => cases hfind
      | folder entries =>
          cases hlookup : lookupEntry first entries with
          | none => rw [find, hlookup] at hfind; cases hfind
          | some sub =>
              rw [find, hlookup] at hfind
              obtain ⟨changed, hchanged, hfound, hfolders⟩ := ih hfind
              obtain ⟨second, more, hmore⟩ := List.exists_cons_of_ne_nil
                (show place ++ name :: rest ≠ [] by simp)
              refine ⟨folder (insertEntry first changed entries), ?_, ?_, ?_⟩
              · rw [hmore] at hchanged
                rw [List.cons_append, hmore, put]
                simp only [hlookup, hchanged]
              · rw [find, lookupEntry_insertEntry_self]
                exact hfound
              · intro other hother
                cases other with
                | nil => exact ⟨_, rfl⟩
                | cons key other =>
                    obtain ⟨known, hknown, hfolder⟩ := isFolderAt_cons_iff.mp hother
                    rw [isFolderAt_cons_iff]
                    by_cases hkey : key = first
                    · subst hkey
                      obtain rfl : sub = known := Option.some.inj (hlookup.symm.trans hknown)
                      exact ⟨changed, lookupEntry_insertEntry_self .., hfolders other hfolder⟩
                    · exact ⟨known, by rw [lookupEntry_insertEntry_ne hkey, hknown], hfolder⟩

/-! ## Folders of files -/

section Entries

variable {α β : Type} (f : α → β) (key : Text)

theorem lookupEntry_map (entries : List (Text × α)) :
    lookupEntry key (entries.map fun entry => (entry.1, f entry.2)) =
      (lookupEntry key entries).map f := by
  induction entries with
  | nil => rfl
  | cons entry entries ih =>
      rw [List.map_cons, lookupEntry, lookupEntry, ih]
      split <;> rfl

private theorem insertEntry_map (value : α) (entries : List (Text × α)) :
    insertEntry key (f value) (entries.map fun entry => (entry.1, f entry.2)) =
      (insertEntry key value entries).map fun entry => (entry.1, f entry.2) := by
  induction entries with
  | nil => rfl
  | cons entry entries ih =>
      rw [List.map_cons, insertEntry, insertEntry, ih]
      split
      · rfl
      split
      · rfl
      · rfl

end Entries

/-- The folder with the given files. -/
def ofFiles (files : NameMap Text) : FileTree :=
  folder (files.entries.map fun entry => (entry.1, file entry.2))

section Files

variable {files : NameMap Text} {name content : Text}

theorem find_ofFiles_of_some (h : files.get? name = some content) :
    (ofFiles files).find [name] = .ok (file content) := by
  have hlookup : lookupEntry name files.entries = some content := h
  rw [ofFiles, find, lookupEntry_map, hlookup]
  rfl

private theorem find_ofFiles_of_none (h : files.get? name = none) :
    (ofFiles files).find [name] = .error .notFound := by
  have hlookup : lookupEntry name files.entries = none := h
  rw [ofFiles, find, lookupEntry_map, hlookup]
  rfl

/-- There is no folder in a folder of files. -/
theorem eq_nil_of_isFolderAt_ofFiles {place : Place} (h : (ofFiles files).IsFolderAt place) :
    place = [] := by
  cases place with
  | nil => rfl
  | cons first rest =>
      obtain ⟨child, hchild, hfolder⟩ := isFolderAt_cons_iff.mp h
      rw [lookupEntry_map] at hchild
      obtain ⟨content, _, rfl⟩ := Option.map_eq_some_iff.mp hchild
      obtain ⟨entries, hfind⟩ :=
        isFolderAt_of_append (show (file content).IsFolderAt ([] ++ rest) from hfolder)
      cases hfind

private theorem isFolderAt_ofFiles {other : NameMap Text} {place : Place}
    (h : (ofFiles files).IsFolderAt place) : (ofFiles other).IsFolderAt place := by
  rw [eq_nil_of_isFolderAt_ofFiles h]
  exact ⟨_, rfl⟩

private theorem put_some_ofFiles (files : NameMap Text) (name content : Text) :
    (ofFiles files).put (some (file content)) [name] = .ok (ofFiles (files.insert name content)) :=
  congrArg (fun entries => Except.ok (folder entries))
    (insertEntry_map file name content files.entries)

private theorem put_none_ofFiles (files : NameMap Text) (name : Text) :
    (ofFiles files).put none [name] = .ok (ofFiles (files.remove name)) :=
  congrArg (fun entries => Except.ok (folder entries)) List.filter_map

end Files

/-! ## Directories of files -/

/-- A path leads to a folder that holds exactly the given files. -/
def HasFiles (tree : FileTree) (directory : Text) (files : NameMap Text) : Prop :=
  tree.follow directory = .ok (ofFiles files)

section Directory

variable {tree : FileTree} {directory name : Text} {files : NameMap Text}

theorem HasFiles.exists_place (h : tree.HasFiles directory files) :
    ∃ place, tree.locate directory = .ok place ∧ tree.find place = .ok (ofFiles files) := by
  rw [HasFiles, follow] at h
  cases hlocate : tree.locate directory with
  | error cause => rw [hlocate] at h; cases h
  | ok place => rw [hlocate] at h; exact ⟨place, rfl, h⟩

theorem HasFiles.ne_nil (h : tree.HasFiles directory files) : directory ≠ [] := by
  obtain ⟨place, hlocate, _⟩ := h.exists_place
  exact ne_nil_of_locate hlocate

theorem HasFiles.list (h : tree.HasFiles directory files) :
    tree.list directory = .ok (files.keys.map fun name => { name, isDirectory := false }) := by
  rw [FileTree.list, h, keys, List.map_map]
  show Except.ok (List.map _ (List.map _ files.entries)) = _
  rw [List.map_map]
  rfl

theorem find_below {place : Place} (h : tree.find place = .ok (ofFiles files)) (name : Text) :
    tree.find (place ++ [name]) = (ofFiles files).find [name] := by
  rw [find_append, h]
  rfl

/-- The path of a name leads to a file exactly if it is in reach and the directory has the file. -/
theorem follow_join_iff (h : tree.HasFiles directory files) (hname : Path.IsName name)
    {found : FileTree} :
    tree.follow (Path.join directory name) = .ok found ↔
      InReach directory name ∧
        ∃ content, files.get? name = some content ∧ found = file content := by
  obtain ⟨place, hlocate, hfind⟩ := h.exists_place
  obtain ⟨hreach, hbeyond⟩ := locate_join hlocate ⟨_, hfind⟩ hname
  by_cases hin : InReach directory name
  · rw [follow, hreach hin]
    simp only [find_below hfind, hin, true_and]
    cases hget : files.get? name with
    | none => simp [find_ofFiles_of_none hget]
    | some content => simp [find_ofFiles_of_some hget, eq_comm]
  · obtain ⟨cause, herror⟩ := hbeyond hin
    rw [follow, herror]
    simp [hin]

theorem read_join_iff (h : tree.HasFiles directory files) (hname : Path.IsName name)
    {content : Text} :
    tree.read (Path.join directory name) = .ok content ↔
      InReach directory name ∧ files.get? name = some content := by
  constructor
  · intro hread
    obtain ⟨hreach, known, hknown, hfile⟩ := (follow_join_iff h hname).mp (follow_of_read hread)
    cases hfile
    exact ⟨hreach, hknown⟩
  · rintro ⟨hreach, hget⟩
    rw [read, (follow_join_iff h hname).mpr ⟨hreach, content, hget, rfl⟩]

/-- **Moving a file within its directory** moves an entry of the map. -/
theorem rename_join {source target content : Text} (h : tree.HasFiles directory files)
    (hsource : Path.IsName source) (htarget : Path.IsName target) (hne : source ≠ target)
    (hget : files.get? source = some content) (hfrom : InReach directory source)
    (hto : InReach directory target) :
    ∃ changed, tree.rename (Path.join directory source) (Path.join directory target) = .ok changed ∧
      changed.HasFiles directory (files.move source target content) := by
  obtain ⟨place, hlocate, hfind⟩ := h.exists_place
  have hsourcePlace := (locate_join hlocate ⟨_, hfind⟩ hsource).1 hfrom
  have htargetPlace := (locate_join hlocate ⟨_, hfind⟩ htarget).1 hto
  obtain ⟨filled, hfilled, hfilledFind, hfilledFolders⟩ :=
    exists_put_below hfind (put_some_ofFiles files target content) fun _ => isFolderAt_ofFiles
  obtain ⟨changed, hchanged, hchangedFind, hchangedFolders⟩ :=
    exists_put_below hfilledFind (put_none_ofFiles _ source) fun _ => isFolderAt_ofFiles
  have hplaces : place ++ [source] ≠ place ++ [target] := by simpa using hne
  have hprefix : (place ++ [source]).isPrefixOf (place ++ [target]) = false := by
    rw [Bool.eq_false_iff, Ne, List.isPrefixOf_iff_prefix, List.prefix_append_right_inj]
    simpa using hne
  have hmoved : tree.moveTo (place ++ [source]) (place ++ [target]) = .ok changed := by
    rw [moveTo, find_below hfind, find_below hfind, find_ofFiles_of_some hget]
    cases hthere : files.get? target with
    | none => simp [find_ofFiles_of_none hthere, hplaces, hprefix, hfilled, hchanged]
    | some replaced => simp [find_ofFiles_of_some hthere, hplaces, hprefix, hfilled, hchanged]
  refine ⟨changed, ?_, ?_⟩
  · rw [rename, hsourcePlace, htargetPlace]
    simp only [hmoved, naming]
  · obtain ⟨hwalk, hagain⟩ := locate_eq_ok hlocate
    have hstays : changed.locate directory = .ok place := by
      rw [hagain]
      refine locateFrom_of_folders (fun other hother => ?_) hwalk
      exact hchangedFolders other (hfilledFolders other hother)
    rw [HasFiles, follow, hstays]
    exact hchangedFind

theorem rename_join_of_not_inReach {source target : Text} (h : tree.HasFiles directory files)
    (htarget : Path.IsName target) (hto : ¬InReach directory target) :
    ∃ error, tree.rename (Path.join directory source) (Path.join directory target) =
      .error error := by
  obtain ⟨place, hlocate, hfind⟩ := h.exists_place
  obtain ⟨cause, herror⟩ := (locate_join hlocate ⟨_, hfind⟩ htarget).2 hto
  rw [rename]
  cases tree.locate (Path.join directory source) with
  | error cause => exact ⟨_, rfl⟩
  | ok sourcePlace =>
      rw [herror]
      exact ⟨_, rfl⟩

end Directory

/-! ## Runs -/

theorem run_rename (tree : FileTree) (source target : Text) :
    StateT.run (Files.rename source target : StateM FileTree _) tree =
      ((tree.rename source target).map fun _ => ⟨⟩,
        (tree.rename source target).toOption.getD tree) := by
  have hrename : (Files.rename source target : StateM FileTree _) = keep (·.rename source target) :=
    rfl
  have hget : StateT.run (get : StateM FileTree FileTree) tree = (tree, tree) := rfl
  rw [hrename, keep, run_bind_of_run hget]
  cases tree.rename source target <;> rfl

end FileTree

end Shortfall

import Mathlib.Algebra.Order.Group.Multiset
import Shortfall.Command.Packs
import Shortfall.Proofs.Catalog.Packs
import Shortfall.Proofs.Files.Directory

/-!
# What switching packs does to the packs directory

A pack has two file names, one for each way it can be switched (`packFile`). Switching it moves the
file with the one name to the other, without a look at what is there (`SwitchStep` says all that it
can come to). So a directory in which both files stand loses the one that is moved onto, and this
is the only way in which a content is lost. The listing goes by the underscore alone: a pack whose
name starts with an underscore itself stays disabled when it is switched on.

## Main results

* `switchStep_of_run`: what one command does to the files of the directory.
* `contents_apply`, `contents_applyAll`: what one command and what a row of them keeps and loses.
* `succeeds_iff`: when a command succeeds.
* `exists_listed_iff`, `enabled_of_listed`: what the listing says about the file of a pack.
-/

namespace Shortfall.Catalog

open FileTree

/-! ## The files of a pack -/

/-- The file name of a pack that is switched on or off. -/
def packFile (enabled : Bool) (name : Text) : Text :=
  if enabled then name ++ ".yaml" else "_" ++ name ++ ".yaml"

def packPath (enabled : Bool) (directory name : Text) : Text :=
  Path.join directory (packFile enabled name)

/-- There is a file for a pack that is switched on or off. -/
def HasPack (tree : FileTree) (enabled : Bool) (directory name : Text) : Prop :=
  ∃ content, tree.read (packPath enabled directory name) = .ok content

section Names

variable {name argument directory : Text}

theorem slash_not_mem_of_packName (h : packName argument = .ok name) : Path.slash ∉ name := by
  intro hslash
  simp only [packName] at h
  split at h
  · cases h
  next hfine =>
  cases h
  simp only [Bool.or_eq_true, not_or, List.any_eq_true, not_exists, not_and] at hfine
  exact (hfine.2 Path.slash hslash).1 (by simp)

theorem packFile_eq (enabled : Bool) (name : Text) :
    packFile enabled name = ((if enabled then [] else ("_" : Text)) ++ name) ++ ".yaml" := by
  cases enabled <;> rfl

theorem slash_not_mem_marked (hname : Path.slash ∉ name) (enabled : Bool) :
    Path.slash ∉ (if enabled then [] else ("_" : Text)) ++ name := by
  rw [List.mem_append, not_or]
  refine ⟨?_, hname⟩
  cases enabled <;> decide

theorem isName_packFile (hname : Path.slash ∉ name) (enabled : Bool) :
    Path.IsName (packFile enabled name) := by
  have hlength : 5 ≤ (packFile enabled name).length := by
    have hending : (".yaml" : Text).length = 5 := by decide
    rw [packFile_eq, List.length_append, hending]
    omega
  have hlong : ∀ short : Text, short.length < 5 → packFile enabled name ≠ short := by
    intro short hshort heq
    rw [heq] at hlength
    omega
  refine ⟨hlong [] (by decide), hlong "." (by decide), hlong ".." (by decide), ?_⟩
  rw [packFile_eq, List.mem_append, not_or]
  exact ⟨slash_not_mem_marked hname enabled, by decide⟩

private theorem length_packFile_false (name : Text) :
    (packFile false name).length = (packFile true name).length + 1 := by
  show ((("_" : Text) ++ name) ++ (".yaml" : Text)).length = (name ++ (".yaml" : Text)).length + 1
  have hmark : ("_" : Text).length = 1 := by decide
  rw [List.length_append, List.length_append, List.length_append, hmark]
  omega

theorem packFile_not_ne (enabled : Bool) (name : Text) :
    packFile (!enabled) name ≠ packFile enabled name := by
  have hlength := length_packFile_false name
  intro heq
  cases enabled <;> simp only [Bool.not_false, Bool.not_true] at heq <;> rw [heq] at hlength <;>
    omega

/-- Where the path of a disabled pack can be followed, that of the enabled one can. -/
theorem inReach_enabled (hdirectory : directory ≠ []) (hname : Path.slash ∉ name)
    (h : InReach directory (packFile false name)) : InReach directory (packFile true name) := by
  refine h.of_shorter hdirectory (isName_packFile hname true) (isName_packFile hname false) ?_ ?_
  · show name ++ (".yaml" : Text) ⊆ (("_" : Text) ++ name) ++ ".yaml"
    rw [List.append_assoc]
    exact List.subset_append_right _ _
  · rw [length_packFile_false]
    omega

private theorem isPackName_packFile (hname : Path.slash ∉ name) (enabled : Bool) :
    isPackName (packFile enabled name) = true := by
  have hextension : Path.extension (packFile enabled name) = ".yaml" := by
    rw [packFile_eq]
    exact Path.extension_append (slash_not_mem_marked hname enabled) (by decide) (by decide)
  rw [isPackName, hextension]
  decide

private theorem stem_packFile (hname : Path.slash ∉ name) (enabled : Bool) :
    Path.stem (packFile enabled name) = (if enabled then [] else ("_" : Text)) ++ name := by
  rw [packFile_eq]
  exact Path.stem_append (slash_not_mem_marked hname enabled) (by decide) (by decide)

end Names

/-! ## One command -/

/-- What switching a pack of a directory can come to, and the files afterwards: a file is moved, or
the pack is as wanted, or the command fails. -/
inductive SwitchStep (tree : FileTree) (directory : Text) (files : NameMap Text) (enabling : Bool)
    (argument : Text) : Except SwitchError Switched → FileTree → Prop where
  | moved {name content : Text} {changed : FileTree} (hname : packName argument = .ok name)
      (hsource : tree.read (packPath (!enabling) directory name) = .ok content)
      (hreach : InReach directory (packFile enabling name))
      (hchanged : changed.HasFiles directory
        (files.move (packFile (!enabling) name) (packFile enabling name) content)) :
      SwitchStep tree directory files enabling argument (.ok (.changed name)) changed
  | already {name : Text} (hname : packName argument = .ok name)
      (hsource : ¬HasPack tree (!enabling) directory name)
      (htarget : HasPack tree enabling directory name) :
      SwitchStep tree directory files enabling argument (.ok (.already name)) tree
  | failed {error : SwitchError}
      (h : ∀ name, packName argument = .ok name → InReach directory (packFile enabling name) →
        ∀ enabled, ¬HasPack tree enabled directory name) :
      SwitchStep tree directory files enabling argument (.error error) tree

section Step

variable {tree : FileTree} {directory argument name : Text} {files : NameMap Text}

theorem hasPack_iff (h : tree.HasFiles directory files) (hname : Path.slash ∉ name)
    (enabled : Bool) :
    HasPack tree enabled directory name ↔ InReach directory (packFile enabled name) ∧
      ∃ content, files.get? (packFile enabled name) = some content := by
  simp only [HasPack, packPath, read_join_iff h (isName_packFile hname enabled), exists_and_left]

private theorem run_isThere_of_hasPack {enabled : Bool} (h : HasPack tree enabled directory name) :
    StateT.run (isThere (packPath enabled directory name) : StateM FileTree Bool) tree =
      (true, tree) := by
  obtain ⟨content, hread⟩ := h
  rw [isThere, run_bind_of_run (run_stat tree _), follow_of_read hread]
  rfl

private theorem run_isThere_of_not_hasPack (h : tree.HasFiles directory files)
    (hname : Path.slash ∉ name) {enabled : Bool} (hnone : ¬HasPack tree enabled directory name) :
    StateT.run (isThere (packPath enabled directory name) : StateM FileTree Bool) tree =
      (false, tree) := by
  rw [isThere, run_bind_of_run (run_stat tree _)]
  cases hfollow : tree.follow (packPath enabled directory name) with
  | error cause => rfl
  | ok found =>
      obtain ⟨hreach, content, hget, _⟩ :=
        (follow_join_iff h (isName_packFile hname enabled)).mp hfollow
      exact absurd ((hasPack_iff h hname enabled).mpr ⟨hreach, content, hget⟩) hnone

theorem switchPack_of_packName {m : Type → Type} [Monad m] [Files m] {enabling : Bool}
    (hname : packName argument = .ok name) :
    (switchPack enabling directory argument : m _) = do
      if ← isThere (packPath (!enabling) directory name) then
        match ← Files.rename (packPath (!enabling) directory name)
            (packPath enabling directory name) with
        | .error error => return .error (.notMoved enabling error)
        | .ok _ => return .ok (.changed name)
      else if ← isThere (packPath enabling directory name) then return .ok (.already name)
      else return .error (.notFound name directory) := by
  rw [switchPack, hname]
  cases enabling <;> rfl

/-- **One command** does to a directory of files what a step says. -/
theorem switchStep_of_run (h : tree.HasFiles directory files) (enabling : Bool) (argument : Text) :
    SwitchStep tree directory files enabling argument
      (StateT.run (switchPack enabling directory argument : StateM FileTree _) tree).1
      (StateT.run (switchPack enabling directory argument : StateM FileTree _) tree).2 := by
  cases hargument : packName argument with
  | error error =>
      rw [switchPack, hargument]
      refine .failed fun name hname => ?_
      rw [hargument] at hname
      cases hname
  | ok name =>
      have hslash := slash_not_mem_of_packName hargument
      have hsame : ∀ other, packName argument = .ok other → other = name := fun other hother =>
        Except.ok.inj (hother.symm.trans hargument)
      rw [switchPack_of_packName hargument]
      by_cases hsource : HasPack tree (!enabling) directory name
      · rw [run_bind_of_run (run_isThere_of_hasPack hsource), if_pos rfl]
        obtain ⟨content, hread⟩ := hsource
        obtain ⟨hfrom, hget⟩ := (read_join_iff h (isName_packFile hslash _)).mp hread
        by_cases hto : InReach directory (packFile enabling name)
        · obtain ⟨changed, hrename, hchanged⟩ := rename_join h (isName_packFile hslash _)
            (isName_packFile hslash _) (packFile_not_ne enabling name) hget hfrom hto
          rw [packPath, packPath, run_bind_of_run (run_rename ..), hrename]
          exact .moved hargument hread hto hchanged
        · obtain ⟨error, hrename⟩ := rename_join_of_not_inReach h (isName_packFile hslash _) hto
          rw [packPath, packPath, run_bind_of_run (run_rename ..), hrename]
          exact .failed fun other hother hreach => absurd (hsame other hother ▸ hreach) hto
      · rw [run_bind_of_run (run_isThere_of_not_hasPack h hslash hsource),
          if_neg Bool.false_ne_true]
        by_cases htarget : HasPack tree enabling directory name
        · rw [run_bind_of_run (run_isThere_of_hasPack htarget), if_pos rfl]
          exact .already hargument hsource htarget
        · rw [run_bind_of_run (run_isThere_of_not_hasPack h hslash htarget),
            if_neg Bool.false_ne_true]
          refine .failed fun other hother _ enabled => ?_
          rw [hsame other hother]
          by_cases hform : enabled = enabling
          · rwa [hform]
          · rwa [Bool.eq_not_of_ne hform]

/-- The files after a command that does not fail. Where both paths of the pack can be followed,
exactly the file with the wanted name is there. -/
theorem SwitchStep.exists_files {enabling : Bool} {done : Switched} {after : FileTree}
    (hstep : SwitchStep tree directory files enabling argument (.ok done) after)
    (h : tree.HasFiles directory files) (hfiles : ∀ key ∈ files.keys, Path.IsName key)
    (hname : packName argument = .ok name) :
    InReach directory (packFile enabling name) ∧
      (∃ enabled, HasPack tree enabled directory name) ∧
      ∃ left, after.HasFiles directory left ∧ (∀ key ∈ left.keys, Path.IsName key) ∧
        (∃ content, left.get? (packFile enabling name) = some content) ∧
        (InReach directory (packFile (!enabling) name) →
          left.get? (packFile (!enabling) name) = none) := by
  have hslash := slash_not_mem_of_packName hname
  cases hstep with
  | @moved other content _ hother hsource hreach hchanged =>
      obtain rfl : name = other := Except.ok.inj (hname.symm.trans hother)
      refine ⟨hreach, ⟨_, content, hsource⟩, _, hchanged, ?_, ⟨content, ?_⟩, fun _ => ?_⟩
      · intro key hkey
        rcases NameMap.mem_keys_of_mem_keys_move hkey with rfl | hbefore
        · exact isName_packFile hslash enabling
        · exact hfiles key hbefore
      · rw [NameMap.get?_move, if_neg (packFile_not_ne enabling name).symm, if_pos rfl]
      · rw [NameMap.get?_move, if_pos rfl]
  | @already other hother hsource htarget =>
      obtain rfl : name = other := Except.ok.inj (hname.symm.trans hother)
      obtain ⟨hreach, hthere⟩ := (hasPack_iff h hslash enabling).mp htarget
      refine ⟨hreach, ⟨_, htarget⟩, files, h, hfiles, hthere, fun hfrom => ?_⟩
      rw [Option.eq_none_iff_forall_ne_some]
      intro content hget
      exact hsource ((hasPack_iff h hslash _).mpr ⟨hfrom, content, hget⟩)

end Step

/-! ## The listing -/

/-- The packs of the directory as they are listed. -/
def listing (tree : FileTree) (directory : Text) (base : Catalog) : List PackInfo :=
  (StateT.run (loadPacks directory base : StateM FileTree (List PackInfo × _)) tree).1.1

private theorem path_ofFile (directory : Text) (file : PackFile) :
    (PackInfo.ofFile directory file).path = Path.join directory file.name := by
  rw [PackInfo.ofFile]
  split <;> rfl

private theorem enabled_ofFile (directory : Text) (file : PackFile) :
    (PackInfo.ofFile directory file).enabled = file.isEnabled := by
  rw [PackInfo.ofFile]
  split <;> rfl

section Listing

variable {tree : FileTree} {directory name : Text} {files : NameMap Text} {info : PackInfo}

theorem mem_listing_iff (h : tree.HasFiles directory files) (base : Catalog) :
    info ∈ listing tree directory base ↔
      ∃ key content, files.get? key = some content ∧ isPackName key = true ∧
        info = PackInfo.ofFile directory
          { name := key, content := tree.read (Path.join directory key) } := by
  rw [listing, run_loadPacks h.list]
  simp only [applyPacks, packFiles, NameMap.keys, List.mem_map, List.mem_filter,
    ← NameMap.mem_entries_iff]
  constructor
  · rintro ⟨_, ⟨⟨_, ⟨⟨_, ⟨⟨key, content⟩, hentry, rfl⟩, rfl⟩, _⟩, rfl⟩, hpack⟩, rfl⟩
    exact ⟨key, content, hentry, hpack, rfl⟩
  · rintro ⟨key, content, hentry, hpack, rfl⟩
    exact ⟨_, ⟨⟨_, ⟨⟨key, ⟨_, hentry, rfl⟩, rfl⟩, hpack⟩, rfl⟩, hpack⟩, rfl⟩

/-- What is listed with the path of a pack is said of the pack's file. -/
theorem eq_ofFile_of_path (h : tree.HasFiles directory files)
    (hfiles : ∀ key ∈ files.keys, Path.IsName key) (hname : Path.slash ∉ name) {enabled : Bool}
    {base : Catalog} (hinfo : info ∈ listing tree directory base)
    (hpath : info.path = packPath enabled directory name) :
    (∃ content, files.get? (packFile enabled name) = some content) ∧
      info = PackInfo.ofFile directory
        { name := packFile enabled name
          content := tree.read (packPath enabled directory name) } := by
  obtain ⟨key, content, hget, _, rfl⟩ := (mem_listing_iff h base).mp hinfo
  rw [path_ofFile] at hpath
  have hkey : key = packFile enabled name := by
    apply Path.join_injective h.ne_nil ?_ (isName_packFile hname enabled) hpath
    exact hfiles key (NameMap.mem_keys_iff.mpr ⟨content, hget⟩)
  rw [hkey] at hget ⊢
  exact ⟨⟨content, hget⟩, rfl⟩

/-- A file of a pack is listed exactly if it is there. -/
theorem exists_listed_iff (h : tree.HasFiles directory files)
    (hfiles : ∀ key ∈ files.keys, Path.IsName key) (hname : Path.slash ∉ name) (enabled : Bool)
    (base : Catalog) :
    (∃ info ∈ listing tree directory base, info.path = packPath enabled directory name) ↔
      ∃ content, files.get? (packFile enabled name) = some content := by
  constructor
  · rintro ⟨info, hinfo, hpath⟩
    exact (eq_ofFile_of_path h hfiles hname hinfo hpath).1
  · rintro ⟨content, hget⟩
    exact ⟨_, (mem_listing_iff h base).mpr
      ⟨_, content, hget, isPackName_packFile hname enabled, rfl⟩, path_ofFile ..⟩

/-- A pack is listed as enabled by its file name, in which an underscore comes first also when it
belongs to the name of the pack. -/
theorem enabled_of_listed (h : tree.HasFiles directory files)
    (hfiles : ∀ key ∈ files.keys, Path.IsName key) (hname : Path.slash ∉ name) {enabled : Bool}
    {base : Catalog} (hinfo : info ∈ listing tree directory base)
    (hpath : info.path = packPath enabled directory name) :
    info.enabled = (enabled && !name.startsWith "_") := by
  rw [(eq_ofFile_of_path h hfiles hname hinfo hpath).2, enabled_ofFile, PackFile.isEnabled,
    PackFile.baseName, stem_packFile hname]
  cases enabled with
  | true => rfl
  | false =>
      have hmarked : Text.startsWith (("_" : Text) ++ name) "_" = true :=
        List.isPrefixOf_iff_prefix.mpr (List.prefix_append _ _)
      show (!Text.startsWith (("_" : Text) ++ name) "_") = false
      rw [hmarked]
      rfl

end Listing

end Shortfall.Catalog

namespace Shortfall.Command

open Catalog FileTree

/-! ## Rows of commands -/

/-- A command that switches a pack on or off. -/
structure Switch where
  enabling : Bool
  argument : Text

namespace Switch

/-- What a command comes to, and the files after it. -/
def run (settings : Settings) (tree : FileTree) (command : Switch) : Outcome × FileTree :=
  StateT.run (runSwitch settings command.enabling command.argument : StateM FileTree Outcome) tree

def apply (settings : Settings) (tree : FileTree) (command : Switch) : FileTree :=
  (command.run settings tree).2

def applyAll (settings : Settings) (tree : FileTree) (commands : List Switch) : FileTree :=
  commands.foldl (apply settings) tree

/-- The content of the file that a command moves another one onto. -/
def replaced (settings : Settings) (tree : FileTree) (command : Switch) : List Text :=
  match packName command.argument with
  | .error _ => []
  | .ok name =>
      match tree.read (packPath (!command.enabling) settings.packsDir name),
          tree.read (packPath command.enabling settings.packsDir name) with
      | .ok _, .ok content => [content]
      | _, _ => []

def replacedByAll (settings : Settings) : FileTree → List Switch → List Text
  | _, [] => []
  | tree, command :: rest =>
      command.replaced settings tree ++ replacedByAll settings (command.apply settings tree) rest

/-- The pack that a command names is there both switched on and switched off. -/
def FindsBoth (settings : Settings) (tree : FileTree) (command : Switch) : Prop :=
  ∃ name, packName command.argument = .ok name ∧
    ∀ enabled, HasPack tree enabled settings.packsDir name

/-- At most one file has another name. -/
def MovesAtMostOne (files left : NameMap Text) : Prop :=
  left = files ∨ ∃ source target content, source ≠ target ∧ files.get? source = some content ∧
    left = files.move source target content

section Steps

variable {settings : Settings} {tree : FileTree} {files : NameMap Text}

/-- A command runs as a step, and it fails when the step does. -/
theorem step_of_run (h : tree.HasFiles settings.packsDir files) (command : Switch) :
    ∃ switched, SwitchStep tree settings.packsDir files command.enabling command.argument switched
        (command.apply settings tree) ∧
      ((command.run settings tree).1.error? = none ↔ ∃ done, switched = .ok done) := by
  have hstep := switchStep_of_run h command.enabling command.argument
  obtain ⟨switched, after, hrun⟩ : ∃ switched after,
      StateT.run (switchPack command.enabling settings.packsDir command.argument :
        StateM FileTree _) tree = (switched, after) := ⟨_, _, rfl⟩
  rw [hrun] at hstep
  refine ⟨switched, ?_⟩
  rw [apply, run, runSwitch, run_bind_of_run (run_makeDirectories_of_folder h)]
  dsimp only
  rw [run_bind_of_run hrun]
  cases switched with
  | error error => exact ⟨hstep, iff_of_false nofun nofun⟩
  | ok done => exact ⟨hstep, iff_of_true rfl ⟨done, rfl⟩⟩

theorem replaced_eq_nil_iff (settings : Settings) (tree : FileTree) (command : Switch) :
    command.replaced settings tree = [] ↔ ¬command.FindsBoth settings tree := by
  unfold replaced FindsBoth
  cases packName command.argument with
  | error error => simp
  | ok name =>
      have hboth : (∀ enabled, HasPack tree enabled settings.packsDir name) ↔
          HasPack tree (!command.enabling) settings.packsDir name ∧
            HasPack tree command.enabling settings.packsDir name := by
        rw [Bool.forall_bool]
        cases command.enabling with
        | true => exact Iff.rfl
        | false => exact and_comm
      simp only [Except.ok.injEq, exists_eq_left']
      rw [hboth, HasPack, HasPack]
      cases tree.read (packPath (!command.enabling) settings.packsDir name) with
      | error error => simp
      | ok moved =>
          cases tree.read (packPath command.enabling settings.packsDir name) with
          | error error => simp
          | ok content => simp

private theorem not_findsBoth_of_not_hasPack {command : Switch} {name : Text} {enabled : Bool}
    (hname : packName command.argument = .ok name)
    (h : ¬HasPack tree enabled settings.packsDir name) : ¬command.FindsBoth settings tree := by
  rintro ⟨other, hother, hboth⟩
  obtain rfl : other = name := Except.ok.inj (hother.symm.trans hname)
  exact h (hboth enabled)

/-- **One command** moves at most one file, and loses the content that it moves the file onto. -/
theorem contents_apply (h : tree.HasFiles settings.packsDir files) (command : Switch) :
    ∃ left, (command.apply settings tree).HasFiles settings.packsDir left ∧
      MovesAtMostOne files left ∧
      files.contents = left.contents + (command.replaced settings tree : List Text) := by
  have hunchanged : ¬command.FindsBoth settings tree →
      files.contents = files.contents + (command.replaced settings tree : List Text) := by
    intro hnot
    rw [(replaced_eq_nil_iff settings tree command).mpr hnot]
    exact (Multiset.add_zero _).symm
  obtain ⟨switched, hstep, _⟩ := step_of_run h command
  generalize command.apply settings tree = after at hstep
  cases hstep with
  | @moved name content changed hname hsource hreach hchanged =>
      have hslash := slash_not_mem_of_packName hname
      have hne := packFile_not_ne command.enabling name
      obtain ⟨_, hget⟩ := (read_join_iff h (isName_packFile hslash _)).mp hsource
      have hreplaced : command.replaced settings tree =
          (files.get? (packFile command.enabling name)).toList := by
        rw [replaced, hname]
        simp only [hsource]
        cases htarget : tree.read (packPath command.enabling settings.packsDir name) with
        | ok known =>
            rw [((read_join_iff h (isName_packFile hslash _)).mp htarget).2]
            rfl
        | error error =>
            cases hknown : files.get? (packFile command.enabling name) with
            | none => rfl
            | some known =>
                have hread := (read_join_iff h (isName_packFile hslash _)).mpr ⟨hreach, hknown⟩
                exact absurd (htarget.symm.trans hread) nofun
      refine ⟨_, hchanged, .inr ⟨_, _, content, hne, hget, rfl⟩, ?_⟩
      rw [hreplaced]
      exact NameMap.contents_move hne hget
  | already hname hsource _ =>
      exact ⟨files, h, .inl rfl, hunchanged (not_findsBoth_of_not_hasPack hname hsource)⟩
  | failed hfailed =>
      refine ⟨files, h, .inl rfl, hunchanged ?_⟩
      rintro ⟨name, hname, hboth⟩
      have hthere := hboth command.enabling
      obtain ⟨hreach, _⟩ := (hasPack_iff h (slash_not_mem_of_packName hname) _).mp hthere
      exact hfailed name hname hreach _ hthere

theorem contents_applyAll (h : tree.HasFiles settings.packsDir files) (commands : List Switch) :
    ∃ left, (applyAll settings tree commands).HasFiles settings.packsDir left ∧
      files.contents = left.contents + (replacedByAll settings tree commands : List Text) := by
  induction commands generalizing tree files with
  | nil => exact ⟨files, h, (Multiset.add_zero _).symm⟩
  | cons command rest ih =>
      obtain ⟨next, hnext, _, hstep⟩ := contents_apply h command
      obtain ⟨left, hleft, hrun⟩ := ih hnext
      refine ⟨left, hleft, ?_⟩
      rw [hstep, hrun, replacedByAll, ← Multiset.coe_add]
      ac_rfl

theorem replacedByAll_eq_nil_iff (settings : Settings) (tree : FileTree)
    (commands : List Switch) :
    replacedByAll settings tree commands = [] ↔
      ∀ before command, before ++ [command] <+: commands →
        ¬command.FindsBoth settings (applyAll settings tree before) := by
  induction commands generalizing tree with
  | nil => simp [replacedByAll]
  | cons first rest ih =>
      rw [replacedByAll, List.append_eq_nil_iff, replaced_eq_nil_iff, ih]
      constructor
      · rintro ⟨hfirst, hrest⟩ before command hprefix
        cases before with
        | nil =>
            obtain ⟨rfl, _⟩ := List.cons_prefix_cons.mp hprefix
            exact hfirst
        | cons other before =>
            obtain ⟨rfl, hbefore⟩ := List.cons_prefix_cons.mp hprefix
            exact hrest before command hbefore
      · intro hall
        refine ⟨hall [] first (List.cons_prefix_cons.mpr ⟨rfl, List.nil_prefix⟩), ?_⟩
        intro before command hbefore
        exact hall (first :: before) command (List.cons_prefix_cons.mpr ⟨rfl, hbefore⟩)

/-- A command succeeds exactly if it names a pack that is there and whose new path can be
followed. -/
theorem succeeds_iff (h : tree.HasFiles settings.packsDir files)
    (hfiles : ∀ key ∈ files.keys, Path.IsName key) (command : Switch) :
    (command.run settings tree).1.error? = none ↔
      ∃ name, packName command.argument = .ok name ∧
        InReach settings.packsDir (packFile command.enabling name) ∧
        ∃ enabled, HasPack tree enabled settings.packsDir name := by
  obtain ⟨switched, hstep, hsuccess⟩ := step_of_run h command
  rw [hsuccess]
  generalize command.apply settings tree = after at hstep
  constructor
  · rintro ⟨done, rfl⟩
    obtain ⟨name, hname⟩ : ∃ name, packName command.argument = .ok name := by
      cases hstep with
      | moved hname => exact ⟨_, hname⟩
      | already hname => exact ⟨_, hname⟩
    obtain ⟨hreach, hthere, _⟩ := hstep.exists_files h hfiles hname
    exact ⟨name, hname, hreach, hthere⟩
  · rintro ⟨name, hname, hreach, enabled, hthere⟩
    cases hstep with
    | moved => exact ⟨_, rfl⟩
    | already => exact ⟨_, rfl⟩
    | failed hfailed => exact absurd hthere (hfailed name hname hreach enabled)

end Steps

/-! ## What a row of commands loses -/

/-- **What switching packs loses.** Whatever files the packs directory holds and whatever commands
are run on it, each command moves at most one file, and the contents that were there are those that
are left and those of the files that another was moved onto. So nothing is lost exactly if no
command finds its pack both switched on and switched off. -/
theorem switching_keeps_contents_iff {settings : Settings} {tree : FileTree}
    {files : NameMap Text} (h : tree.HasFiles settings.packsDir files) (commands : List Switch) :
    (∀ before command, before ++ [command] <+: commands →
      ∃ now next, (applyAll settings tree before).HasFiles settings.packsDir now ∧
        (applyAll settings tree (before ++ [command])).HasFiles settings.packsDir next ∧
        MovesAtMostOne now next) ∧
    ∃ left, (applyAll settings tree commands).HasFiles settings.packsDir left ∧
      files.contents = left.contents + (replacedByAll settings tree commands : List Text) ∧
      (left.contents = files.contents ↔
        ∀ before command, before ++ [command] <+: commands →
          ¬command.FindsBoth settings (applyAll settings tree before)) := by
  constructor
  · intro before command _
    obtain ⟨now, hnow, _⟩ := contents_applyAll h before
    obtain ⟨next, hnext, hmoves, _⟩ := contents_apply hnow command
    refine ⟨now, next, hnow, ?_, hmoves⟩
    rw [applyAll, List.foldl_append]
    exact hnext
  · obtain ⟨left, hleft, hcontents⟩ := contents_applyAll h commands
    refine ⟨left, hleft, hcontents, ?_⟩
    rw [← replacedByAll_eq_nil_iff, hcontents, ← Multiset.coe_eq_zero, left_eq_add]

/-- The pack `x`, switched off, and the pack `y`, switched on. -/
def apart : NameMap Text := .ofList [("_x.yaml", "1"), ("y.yaml", "2")]

/-- The pack `x` both switched on and switched off. -/
def twice : NameMap Text := .ofList [("_x.yaml", "1"), ("x.yaml", "2")]

/-- The pack `_x`, switched on, which is also the pack `x`, switched off. -/
def marked : NameMap Text := .ofList [("_x.yaml", "1")]

/-- The files in the packs directory `p`. -/
def inPacks (files : NameMap Text) : FileTree := .folder [("p", ofFiles files)]

def packSettings : Settings := { analysis := {}, packsDir := "p" }

theorem hasFiles_inPacks (files : NameMap Text) :
    (inPacks files).HasFiles packSettings.packsDir files := rfl

theorem switching_apart_keeps_contents :
    ∃ left, (applyAll packSettings (inPacks apart)
        [⟨true, "x"⟩, ⟨false, "y"⟩, ⟨false, "x"⟩]).HasFiles packSettings.packsDir left ∧
      left.contents = apart.contents := by
  obtain ⟨_, left, hleft, _, hkeeps⟩ := switching_keeps_contents_iff (hasFiles_inPacks apart)
    [⟨true, "x"⟩, ⟨false, "y"⟩, ⟨false, "x"⟩]
  refine ⟨left, hleft, hkeeps.mpr ?_⟩
  exact (replacedByAll_eq_nil_iff ..).mp (by decide)

/-- Switching on a pack that is there twice loses the one that was switched on. -/
theorem switching_twice_loses_content :
    (applyAll packSettings (inPacks twice) [⟨true, "x"⟩]).HasFiles packSettings.packsDir
        (.ofList [("x.yaml", "1")]) ∧
      NameMap.contents (.ofList [("x.yaml", "1")]) ≠ twice.contents :=
  ⟨rfl, by decide⟩

/-! ## Switching and listing -/

/-- **What the listing says about a switched pack.** A command succeeds exactly if it names a pack
that is there and whose new path can be followed. Then a pack that was switched on is listed with
its file name, as enabled exactly if its name does not start with an underscore; and a pack that was
switched off is listed as disabled, and no more under the name that it had when it was on. -/
theorem switching_agrees_with_listing_iff {settings : Settings} {tree : FileTree}
    {files : NameMap Text} (h : tree.HasFiles settings.packsDir files)
    (hfiles : ∀ key ∈ files.keys, Path.IsName key) (command : Switch) (base : Catalog) :
    ((command.run settings tree).1.error? = none ↔
      ∃ name, packName command.argument = .ok name ∧
        InReach settings.packsDir (packFile command.enabling name) ∧
        ∃ enabled, HasPack tree enabled settings.packsDir name) ∧
    ∀ name, packName command.argument = .ok name →
      (command.run settings tree).1.error? = none →
        (command.enabling = true →
          ∃ info ∈ listing (command.apply settings tree) settings.packsDir base,
            info.path = enabledPath settings.packsDir name ∧
            (info.enabled = true ↔ name.startsWith "_" = false)) ∧
        (command.enabling = false →
          (∃ info ∈ listing (command.apply settings tree) settings.packsDir base,
            info.path = disabledPath settings.packsDir name ∧ info.enabled = false) ∧
          ∀ info ∈ listing (command.apply settings tree) settings.packsDir base,
            info.path ≠ enabledPath settings.packsDir name) := by
  refine ⟨succeeds_iff h hfiles command, fun name hname hsuccess => ?_⟩
  obtain ⟨switched, hstep, hdone⟩ := step_of_run h command
  obtain ⟨done, rfl⟩ := hdone.mp hsuccess
  obtain ⟨hreach, _, left, hleft, hleftFiles, hthere, hgone⟩ := hstep.exists_files h hfiles hname
  have hslash := slash_not_mem_of_packName hname
  obtain ⟨info, hinfo, hpath⟩ :=
    (exists_listed_iff hleft hleftFiles hslash command.enabling base).mpr hthere
  have henabled := enabled_of_listed hleft hleftFiles hslash hinfo hpath
  constructor
  · intro hon
    rw [hon] at hpath henabled
    exact ⟨info, hinfo, hpath, by simp [henabled]⟩
  · intro hoff
    rw [hoff] at hpath henabled hreach hgone
    refine ⟨⟨info, hinfo, hpath, henabled⟩, fun other hother hotherPath => ?_⟩
    obtain ⟨content, hget⟩ :=
      (exists_listed_iff hleft hleftFiles hslash true base).mp ⟨other, hother, hotherPath⟩
    have hnone := hgone (inReach_enabled h.ne_nil hslash hreach)
    exact absurd (hnone.symm.trans hget) nofun

theorem switching_on_lists_enabled :
    (∀ key ∈ apart.keys, Path.IsName key) ∧
      ∃ info ∈ listing (apply packSettings (inPacks apart) ⟨true, "x"⟩) packSettings.packsDir ⟨[]⟩,
        info.path = enabledPath packSettings.packsDir "x" ∧ info.enabled = true := by
  have hfiles : ∀ key ∈ apart.keys, Path.IsName key := by decide
  obtain ⟨_, hlisted⟩ :=
    switching_agrees_with_listing_iff (hasFiles_inPacks apart) hfiles ⟨true, "x"⟩ ⟨[]⟩
  obtain ⟨info, hinfo, hpath, henabled⟩ := (hlisted "x" rfl rfl).1 rfl
  exact ⟨hfiles, info, hinfo, hpath, henabled.mpr (by decide)⟩

/-- A pack with an underscore in front of its name is said to be enabled and listed as disabled. -/
theorem switching_on_marked_lists_disabled :
    (run packSettings (inPacks marked) ⟨true, "_x"⟩).1.output =
        Report.lines ["Pack '_x' is already enabled."] ∧
      ∃ info ∈ listing (apply packSettings (inPacks marked) ⟨true, "_x"⟩) packSettings.packsDir
          ⟨[]⟩,
        info.path = enabledPath packSettings.packsDir "_x" ∧ info.enabled = false := by
  have hfiles : ∀ key ∈ marked.keys, Path.IsName key := by decide
  have hslash : Path.slash ∉ ("_x" : Text) := by decide
  have hunchanged : apply packSettings (inPacks marked) ⟨true, "_x"⟩ = inPacks marked := rfl
  obtain ⟨info, hinfo, hpath⟩ := (exists_listed_iff (hasFiles_inPacks marked) hfiles hslash true
    ⟨[]⟩).mpr ⟨"1", by decide⟩
  have henabled := enabled_of_listed (hasFiles_inPacks marked) hfiles hslash hinfo hpath
  rw [hunchanged]
  exact ⟨by decide, info, hinfo, hpath, henabled⟩

end Switch

end Shortfall.Command

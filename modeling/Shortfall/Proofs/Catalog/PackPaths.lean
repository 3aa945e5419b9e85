import Shortfall.Proofs.Catalog.PackSwitch
import Shortfall.Proofs.Files.Requests
import Shortfall.Proofs.Path.Cleaning

/-!
# Where the argument of a pack command can lead

The commands that switch and show packs take the name of a pack and make two paths of it, for the
pack switched on and switched off. A name is accepted only if it has no slash, and with the ending
`.yaml` behind it it is neither empty nor a step to where one is or upwards. So both paths lead
directly into the packs directory, whatever its path is, and no other file is read or moved. For a
name that is not accepted no file is touched at all: the packs directory is made first, but that
only makes directories.

## Main results

* `isChild_packPath`, `locate_packPath`: where the paths of a pack lead.
* `asks_switchPack`, `asks_packContent`: which files are touched.
* `pack_commands_stay_in_directory`: both together, for the three commands.
-/

namespace Shortfall.Catalog

open FileTree Files

/-! ## The paths of a pack -/

section Paths

variable {name : Text}

theorem isChild_packPath (directory : Text) (hname : Path.slash ∉ name) (enabled : Bool) :
    Path.IsChild directory (packFile enabled name) (packPath enabled directory name) :=
  Path.isChild_join directory (isName_packFile hname enabled)

private theorem packPath_true_ne_false (directory : Text) (hname : Path.slash ∉ name) :
    packPath true directory name ≠ packPath false directory name := by
  intro hsame
  have hon := (isChild_packPath directory hname true).base_eq
  have hoff := (isChild_packPath directory hname false).base_eq
  rw [hsame, hoff] at hon
  exact packFile_not_ne true name hon

/-- In a tree of files, the path of a pack leads into the folder that the path of the directory
leads to. -/
theorem locate_packPath {tree : FileTree} {directory : Text} {place found : Place}
    (hplace : tree.locate directory = .ok place) (hfolder : tree.IsFolderAt place)
    (hname : Path.slash ∉ name) (enabled : Bool)
    (hfound : tree.locate (packPath enabled directory name) = .ok found) :
    found = place ++ [packFile enabled name] := by
  obtain ⟨hreached, hbeyond⟩ := locate_join hplace hfolder (isName_packFile hname enabled)
  by_cases hreach : InReach directory (packFile enabled name)
  · exact Except.ok.inj (hfound.symm.trans (hreached hreach))
  · obtain ⟨cause, hcause⟩ := hbeyond hreach
    exact absurd (hfound.symm.trans hcause) nofun

end Paths

/-! ## The files that are touched -/

/-- The paths that an argument gives: those of the pack that it names, if it names one. -/
def reach (directory argument : Text) : List Text :=
  match packName argument with
  | .ok name => [enabledPath directory name, disabledPath directory name]
  | .error _ => []

section Requests

variable {σ : Type} [Files (StateM σ)] {directory argument name : Text}

theorem packPath_mem_reach (hname : packName argument = .ok name) (enabled : Bool) :
    packPath enabled directory name ∈ reach directory argument := by
  rw [reach, hname]
  cases enabled with
  | true => exact List.mem_cons_self
  | false => exact List.mem_cons_of_mem _ (List.mem_singleton_self _)

theorem asks_isThere (paths : List Text) (path : Text) :
    Asks (·.files ⊆ paths) (isThere path : Recorded (StateM σ) Bool) := by
  refine asks_bind (asks_record (List.nil_subset paths) _) fun found => ?_
  cases found <;> exact asks_pure _

theorem asks_switchPack (enabling : Bool) (directory argument : Text) :
    Asks (·.files ⊆ reach directory argument)
      (switchPack enabling directory argument : Recorded (StateM σ) _) := by
  cases hname : packName argument with
  | error error =>
      rw [switchPack, hname]
      exact asks_pure _
  | ok name =>
      rw [switchPack_of_packName hname]
      refine asks_bind (asks_isThere _ _) fun isOther => ?_
      cases isOther with
      | true =>
          have hmoved : (Request.rename (packPath (!enabling) directory name)
              (packPath enabling directory name)).files ⊆ reach directory argument :=
            List.cons_subset.mpr ⟨packPath_mem_reach hname _,
              List.cons_subset.mpr ⟨packPath_mem_reach hname _, List.nil_subset _⟩⟩
          refine asks_bind (asks_record hmoved _) fun moved => ?_
          cases moved <;> exact asks_pure _
      | false =>
          refine asks_bind (asks_isThere _ _) fun isWanted => ?_
          cases isWanted <;> exact asks_pure _

theorem asks_packContent (directory argument : Text) :
    Asks (·.files ⊆ reach directory argument)
      (packContent directory argument : Recorded (StateM σ) _) := by
  cases hname : packName argument with
  | error error =>
      rw [packContent, hname]
      exact asks_pure _
  | ok name =>
      have hcontent : ∀ enabled, Asks (·.files ⊆ reach directory argument)
          (packContent.content (packPath enabled directory name) : Recorded (StateM σ) _) := by
        intro enabled
        have hread : (Request.read (packPath enabled directory name)).files ⊆
            reach directory argument :=
          List.cons_subset.mpr ⟨packPath_mem_reach hname _, List.nil_subset _⟩
        refine asks_bind (asks_record hread _) fun content => ?_
        cases content <;> exact asks_pure _
      rw [packContent, hname]
      refine asks_bind (asks_isThere _ _) fun isOn => ?_
      cases isOn with
      | true => exact hcontent true
      | false =>
          refine asks_bind (asks_isThere _ _) fun isOff => ?_
          cases isOff with
          | true => exact hcontent false
          | false => exact asks_pure _

end Requests

end Shortfall.Catalog

namespace Shortfall.Command

open Catalog FileTree Files

/-- The commands that take the name of a pack: switch it on, switch it off, and show it. -/
def packCommands {m : Type → Type} [Monad m] [Files m] (settings : Settings) (argument : Text) :
    List (m Outcome) :=
  [runSwitch settings true argument, runSwitch settings false argument, runShow settings argument]

/-- A command makes the packs directory, and then touches the files that its argument gives. -/
theorem asks_packCommands (σ : Type) [Files (StateM σ)] (settings : Settings) (argument : Text) :
    ∀ command ∈ (packCommands settings argument : List (Recorded (StateM σ) Outcome)),
      Asks (·.files ⊆ reach settings.packsDir argument) command := by
  have hnone : ∀ request : Request, request.files = [] →
      request.files ⊆ reach settings.packsDir argument := by
    intro request hempty
    rw [hempty]
    exact List.nil_subset _
  have hmade : Asks (·.files ⊆ reach settings.packsDir argument)
      (makeDirectories settings.packsDir : Recorded (StateM σ) _) :=
    asks_makeDirectories hnone settings.packsDir
  have hswitch : ∀ enabling, Asks (·.files ⊆ reach settings.packsDir argument)
      (runSwitch settings enabling argument : Recorded (StateM σ) Outcome) := by
    intro enabling
    refine asks_bind hmade fun made => ?_
    cases made with
    | error error => exact asks_pure _
    | ok _ =>
        refine asks_bind (asks_switchPack enabling _ argument) fun switched => ?_
        cases switched <;> exact asks_pure _
  have hshow : Asks (·.files ⊆ reach settings.packsDir argument)
      (runShow settings argument : Recorded (StateM σ) Outcome) := by
    refine asks_bind hmade fun made => ?_
    cases made with
    | error error => exact asks_pure _
    | ok _ =>
        refine asks_bind (asks_packContent _ argument) fun content => ?_
        cases content <;> exact asks_pure _
  intro command hcommand
  simp only [packCommands, List.mem_cons, List.not_mem_nil, or_false] at hcommand
  rcases hcommand with rfl | rfl | rfl
  · exact hswitch true
  · exact hswitch false
  · exact hshow

/-- **The argument of a pack command does not lead out of the packs directory.** An accepted
argument gives two different paths, directly in the packs directory and with the file names of the
pack as their last components; in a tree of files they lead directly into the folder that the path
of the directory leads to. On whatever files they run, the commands that switch the pack and show it
read and move nothing but what is at these two paths. For an argument that is not accepted they read
and move nothing. -/
theorem pack_commands_stay_in_directory {σ : Type} [Files (StateM σ)] (settings : Settings)
    (argument : Text) (state : σ) :
    (∀ name, packName argument = .ok name →
      Path.IsChild settings.packsDir (name ++ ".yaml") (enabledPath settings.packsDir name) ∧
      Path.IsChild settings.packsDir ("_" ++ name ++ ".yaml")
        (disabledPath settings.packsDir name) ∧
      enabledPath settings.packsDir name ≠ disabledPath settings.packsDir name ∧
      (∀ (tree : FileTree) (place found : Place), tree.locate settings.packsDir = .ok place →
        tree.IsFolderAt place →
          (tree.locate (enabledPath settings.packsDir name) = .ok found →
            found = place ++ [name ++ ".yaml"]) ∧
          (tree.locate (disabledPath settings.packsDir name) = .ok found →
            found = place ++ ["_" ++ name ++ ".yaml"])) ∧
      ∀ command ∈ packCommands settings argument, ∀ request ∈ requests command state,
        request.files ⊆ [enabledPath settings.packsDir name, disabledPath settings.packsDir name]) ∧
    ∀ error, packName argument = .error error →
      ∀ command ∈ packCommands settings argument, ∀ request ∈ requests command state,
        request.files = [] := by
  have hasks := asks_packCommands σ settings argument
  constructor
  · intro name hname
    have hslash := slash_not_mem_of_packName hname
    refine ⟨isChild_packPath _ hslash true, isChild_packPath _ hslash false,
      packPath_true_ne_false _ hslash, ?_, ?_⟩
    · intro tree place found hplace hfolder
      exact ⟨locate_packPath hplace hfolder hslash true,
        locate_packPath hplace hfolder hslash false⟩
    · intro command hcommand request hrequest
      have hfiles := (hasks command hcommand).of_mem_requests hrequest
      rwa [reach, hname] at hfiles
  · intro error herror command hcommand request hrequest
    have hfiles := (hasks command hcommand).of_mem_requests hrequest
    rw [reach, herror] at hfiles
    exact List.subset_nil.mp hfiles

/-- A packs directory `p` that is reached through another one. -/
def roundabout : Settings := { analysis := {}, packsDir := "q/../p" }

/-- Both directories, and a pack that is switched on. -/
def onePack : FileTree :=
  .folder [("p", .folder [("a.yaml", .file "1")]), ("q", .folder [])]

/-- The argument `a.yaml` stands for the files `a.yaml` and `_a.yaml` of the directory, and
switching the pack off moves one to the other. The argument `...yaml` would stand for the directory
above, and nothing is read or moved for it. -/
theorem pack_commands_stay_in_roundabout :
    enabledPath roundabout.packsDir "a" = Text.ofString "p/a.yaml" ∧
      Request.rename "p/a.yaml" "p/_a.yaml" ∈
        requests (runSwitch roundabout false "a.yaml") onePack ∧
      (∀ command ∈ packCommands roundabout "a.yaml", ∀ request ∈ requests command onePack,
        request.files ⊆
          [enabledPath roundabout.packsDir "a", disabledPath roundabout.packsDir "a"]) ∧
      ∀ command ∈ packCommands roundabout "...yaml", ∀ request ∈ requests command onePack,
        request.files = [] := by
  have hname : packName "a.yaml" = .ok "a" := by decide
  have hbad : packName "...yaml" = .error (.badName "...yaml") := by decide
  obtain ⟨_, _, _, _, htouched⟩ :=
    (pack_commands_stay_in_directory roundabout "a.yaml" onePack).1 "a" hname
  exact ⟨by decide, by decide, htouched,
    (pack_commands_stay_in_directory roundabout "...yaml" onePack).2 _ hbad⟩

end Shortfall.Command

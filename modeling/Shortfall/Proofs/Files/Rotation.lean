import Shortfall.Files.Rotation
import Shortfall.Proofs.Files

/-!
# Files with a limit

A line that fits is added to the end of a rotating file: of one that is open (`run_append_of_open`),
of one that is opened again (`run_append_of_read`), and of one that is missing so far
(`run_append_of_fresh`). Opening the file removes the oldest of the files that were moved aside
before. That never takes the file itself away, since their names are longer than its own
(`exists_prune`), and it leaves a path on which a file can be made as it is (`Fresh.exists_prune`).

A line that is longer than the limit is refused and changes nothing (`run_append_of_tooLong`).
-/

namespace Shortfall

/-! ## Times in names -/

namespace Calendar

section Bytes

variable {byte : UInt8} {text rest : Text} (hdigit : Text.isDigit byte = false)

include hdigit

private theorem mem_of_number? {twoDigits : Bool} {n : Nat}
    (h : number? twoDigits text = some (n, rest)) (hmem : byte ∈ text) : byte ∈ rest := by
  unfold number? at h
  grind

private theorem mem_of_bounded? {least most : Nat} {twoDigits : Bool} {n : Nat}
    (h : bounded? least most twoDigits text = some (n, rest)) (hmem : byte ∈ text) :
    byte ∈ rest := by
  unfold bounded? at h
  grind [mem_of_number?]

private theorem mem_of_year? {n : Nat} (h : year? text = some (n, rest)) (hmem : byte ∈ text) :
    byte ∈ rest := by
  unfold year? at h
  split at h
  case h_2 => cases h
  case h_1 year hyear =>
    have hdigits : ∀ digit ∈ text.take 4, Text.isDigit digit = true := by
      unfold Text.digitsValue? at hyear
      grind
    have hbehind : byte ∈ text.drop 4 := by
      rw [← List.take_append_drop 4 text, List.mem_append] at hmem
      refine hmem.resolve_left fun hfront => ?_
      rw [hdigits byte hfront] at hdigit
      cases hdigit
    grind

private theorem mem_fraction (hpoint : byte ≠ 0x2E) (hcomma : byte ≠ 0x2C) (hmem : byte ∈ text) :
    byte ∈ (fraction text).2 := by
  unfold fraction
  split
  case h_2 => exact hmem
  case h_1 mark digit rest =>
    split
    case isFalse => exact hmem
    case isTrue hfraction =>
      simp only [Bool.and_eq_true, Bool.or_eq_true, decide_eq_true_eq] at hfraction
      have hrest : byte ∈ rest := by grind
      have hsplit : rest.takeWhile Text.isDigit ++ rest.dropWhile Text.isDigit = rest :=
        List.takeWhile_append_dropWhile
      rw [← hsplit, List.mem_append] at hrest
      refine hrest.resolve_left fun hfront => ?_
      rw [List.all_eq_true.mp List.all_takeWhile byte hfront] at hdigit
      cases hdigit

end Bytes

/-- A field of a time in a name takes no slash. -/
private theorem slash_mem_of_read? {field : Field} (hfield : field ∈ inFileNames)
    {moment next : Moment} {text rest : Text} (h : field.read? moment text = some (next, rest))
    (hmem : Path.slash ∈ text) : Path.slash ∈ rest := by
  have hdigit : Text.isDigit Path.slash = false := by decide
  cases field with
  | year =>
      obtain ⟨⟨n, behind⟩, hyear, hnext⟩ := Option.map_eq_some_iff.mp h
      cases hnext
      exact mem_of_year? hdigit hyear hmem
  | month _ | day _ | hour | minute _ =>
      obtain ⟨⟨n, behind⟩, hnumber, hnext⟩ := Option.map_eq_some_iff.mp h
      cases hnext
      exact mem_of_bounded? hdigit hnumber hmem
  | second _ =>
      obtain ⟨⟨n, behind⟩, hnumber, hnext⟩ := Option.map_eq_some_iff.mp h
      cases hnext
      exact mem_fraction hdigit (by decide) (by decide) (mem_of_bounded? hdigit hnumber hmem)
  | sign byte =>
      have hbyte : Path.slash ≠ byte := by
        rintro rfl
        exact absurd hfield (by decide)
      simp only [Field.read?] at h
      grind
  | zone => exact absurd hfield (by decide)
  | spaces => exact absurd hfield (by decide)

/-- A time in a name has no slash. -/
private theorem slash_not_mem_of_readFields? {fields : List Field} (hfields : fields ⊆ inFileNames)
    {moment found : Moment} {text : Text} (h : readFields? fields moment text = some found) :
    Path.slash ∉ text := by
  induction fields generalizing moment text with
  | nil =>
      unfold readFields? at h
      grind
  | cons field fields ih =>
      intro hmem
      rw [List.cons_subset] at hfields
      rw [readFields?] at h
      split at h
      case h_2 => cases h
      case h_1 next rest hread => exact ih hfields.2 h (slash_mem_of_read? hfields.1 hread hmem)

private theorem slash_not_mem_of_parseFileTime? {text : Text} {found : Moment}
    (h : parseFileTime? text = some found) : Path.slash ∉ text := by
  simp only [parseFileTime?] at h
  split at h
  · exact slash_not_mem_of_readFields? (fun _ => id) h
  · cases h

end Calendar

namespace RotatingFile

open FileTree

variable {file : RotatingFile} {tree changed : FileTree} {name : Text}

/-! ## Names of older files -/

private theorem eq_of_timeBefore? {ending : Text} {time : Calendar.Moment}
    (h : file.timeBefore? ending name = some time) :
    ∃ stamp, name = file.front ++ stamp ++ ending ∧ Path.slash ∉ stamp := by
  simp only [timeBefore?] at h
  split at h
  case isFalse => cases h
  case isTrue hname =>
    obtain ⟨hfront, hends⟩ := Bool.and_eq_true_iff.mp hname
    obtain ⟨rest, rfl⟩ := List.isPrefixOf_iff_prefix.mp hfront
    rw [List.drop_left] at hends h
    obtain ⟨stamp, rfl⟩ := List.isSuffixOf_iff_suffix.mp hends
    rw [Text.dropEnding_append] at h
    exact ⟨stamp, (List.append_assoc ..).symm, Calendar.slash_not_mem_of_parseFileTime? h⟩

/-- The name of an older file is that of the file with something put in. -/
theorem eq_of_timeOf? (h : (file.timeOf? name).isSome) :
    ∃ stamp, name = file.front ++ stamp ∧ file.ending.length ≤ stamp.length ∧
      (Path.slash ∉ file.name → Path.slash ∉ stamp) := by
  have hending : Path.slash ∉ file.name → Path.slash ∉ file.ending := fun hname hmem =>
    hname ((Path.extension_suffix file.name).subset hmem)
  obtain ⟨time, htime⟩ := Option.isSome_iff_exists.mp h
  rcases Option.or_eq_some_iff.mp htime with htime | ⟨_, htime⟩
  · obtain ⟨stamp, rfl, hstamp⟩ := eq_of_timeBefore? htime
    refine ⟨stamp ++ file.ending, List.append_assoc .., by simp, fun hname => ?_⟩
    exact List.not_mem_append hstamp (hending hname)
  · obtain ⟨stamp, rfl, hstamp⟩ := eq_of_timeBefore? htime
    have hlength : file.ending.length ≤ (stamp ++ (file.ending ++ compressed)).length := by
      simp only [List.length_append]
      omega
    refine ⟨stamp ++ (file.ending ++ compressed), List.append_assoc .., hlength, fun hname => ?_⟩
    exact List.not_mem_append hstamp (List.not_mem_append (hending hname) (by decide))

/-- The name of an older file is longer than that of the file. -/
theorem length_lt_of_timeOf? (h : (file.timeOf? name).isSome) : file.name.length < name.length := by
  obtain ⟨stamp, rfl, hlength, _⟩ := eq_of_timeOf? h
  have hname := Text.length_le_dropEnding file.name file.ending
  have hdash : (Text.ofString "-").length = 1 := rfl
  simp only [front, List.length_append, hdash]
  omega

private theorem isName_of_timeOf? (hslash : Path.slash ∉ file.name)
    (h : (file.timeOf? name).isSome) : Path.IsName name := by
  obtain ⟨stamp, rfl, _, hstamp⟩ := eq_of_timeOf? h
  have hfront : Path.slash ∉ file.front := by
    refine List.not_mem_append (fun hmem => hslash ?_) (by decide)
    exact (Text.dropEnding_prefix file.name file.ending).subset hmem
  have hdash : (0x2D : UInt8) ∈ file.front ++ stamp :=
    List.mem_append_left _ (List.mem_append_right _ (by decide))
  refine ⟨?_, ?_, ?_, List.not_mem_append hfront (hstamp hslash)⟩ <;>
  · intro hname
    rw [hname] at hdash
    exact absurd hdash (by decide)

theorem mem_of_mem_surplus {kept : Nat} {seen names : List Text}
    (h : name ∈ surplus kept seen names) : name ∈ names := by
  induction names generalizing seen with
  | nil => exact h
  | cons first names ih =>
      simp only [surplus] at h
      split at h
      · rcases List.mem_cons.mp h with rfl | hlater
        · exact List.mem_cons_self
        · exact List.mem_cons_of_mem _ (ih hlater)
      · exact List.mem_cons_of_mem _ (ih h)

private theorem isSome_timeOf?_of_mem_olderNames {entries : List Files.Entry}
    (h : name ∈ file.olderNames entries) : (file.timeOf? name).isSome := by
  simp only [olderNames, List.mem_map, List.mem_mergeSort, List.mem_filterMap] at h
  obtain ⟨⟨nanoseconds, _⟩, ⟨entry, _, hentry⟩, rfl⟩ := h
  split at hentry
  · cases hentry
  · obtain ⟨time, htime, hpair⟩ := Option.map_eq_some_iff.mp hentry
    cases hpair
    rw [htime]
    rfl

/-! ## Pruning -/

/-- What every removal keeps, the removal of several files keeps. -/
theorem exists_removeAll {P : FileTree → Prop} {paths : List Text}
    (hstep : ∀ path ∈ paths, ∀ tree changed, P tree → tree.remove path = .ok changed → P changed)
    (h : P tree) :
    ∃ after, StateT.run (removeAll paths : StateM FileTree _) tree = (⟨⟩, after) ∧ P after := by
  induction paths generalizing tree with
  | nil => exact ⟨tree, rfl, h⟩
  | cons path paths ih =>
      rw [List.forall_mem_cons] at hstep
      have hrun := run_remove tree path
      cases hremove : tree.remove path with
      | error error =>
          rw [hremove] at hrun
          obtain ⟨after, hafter, hkept⟩ := ih hstep.2 h
          exact ⟨after, by rw [removeAll, run_bind_of_run hrun, hafter], hkept⟩
      | ok changed =>
          rw [hremove] at hrun
          obtain ⟨after, hafter, hkept⟩ := ih hstep.2 (hstep.1 tree changed h hremove)
          exact ⟨after, by rw [removeAll, run_bind_of_run hrun, hafter], hkept⟩

/-- What the removal of every older file keeps, pruning keeps. -/
theorem exists_prune {P : FileTree → Prop}
    (hstep : ∀ name, (file.timeOf? name).isSome → ∀ tree changed, P tree →
      tree.remove (Path.join file.directory name) = .ok changed → P changed)
    (h : P tree) :
    ∃ after, StateT.run (file.prune : StateM FileTree _) tree = (⟨⟩, after) ∧ P after := by
  rw [prune]
  split
  · exact ⟨tree, rfl, h⟩
  · have hlist := run_list tree file.directory
    cases hentries : tree.list file.directory with
    | error error =>
        rw [hentries] at hlist
        exact ⟨tree, by rw [run_bind_of_run hlist]; rfl, h⟩
    | ok entries =>
        rw [hentries] at hlist
        rw [run_bind_of_run hlist]
        refine exists_removeAll (fun path hpath => ?_) h
        obtain ⟨name, hname, rfl⟩ := List.mem_map.mp hpath
        exact hstep name (isSome_timeOf?_of_mem_olderNames (mem_of_mem_surplus hname))

/-- **Pruning keeps the file.** -/
theorem exists_prune_of_read {known : Text} (h : tree.read file.path = .ok known) :
    ∃ after, StateT.run (file.prune : StateM FileTree _) tree = (⟨⟩, after) ∧
      after.read file.path = .ok known := by
  obtain ⟨place, hlocate, hfile⟩ := locate_of_read h
  obtain ⟨last, hne, _, hlast⟩ := getLast?_of_locate hlocate hfile
  obtain ⟨hname, hslash⟩ : file.name = last ∧ Path.slash ∉ last :=
    Path.base_eq_of_getLast? hne hlast
  refine exists_prune (fun name htime tree changed hread hremove => ?_) h
  refine read_of_remove hread hremove ?_
  have hjoin := Path.splitAtByte_join (Path.directory_ne_nil file.path)
    (isName_of_timeOf? (hname ▸ hslash) htime)
  rw [directory, hlast, hjoin, ← List.append_assoc, List.getLast?_concat, ← hname]
  intro hsame
  have hlength : file.name.length = name.length := congrArg List.length (Option.some.inj hsame)
  exact absurd hlength (Nat.ne_of_lt (length_lt_of_timeOf? htime))

/-! ## Fresh files -/

/-- Nothing is at the path of a file yet, and it can be made there with the directories above. -/
structure Fresh (file : RotatingFile) (tree : FileTree) : Prop where
  missing : tree.follow file.path = .error .notFound
  opens : ∃ made place,
    StateT.run (Files.makeDirectories file.directory : StateM FileTree _) tree = (.ok ⟨⟩, made) ∧
    made.locate file.path = .ok place ∧ made.find place = .error .notFound

/-- A file in a directory that is there. -/
theorem fresh_of_directory {entries : List (Text × FileTree)} {place : Place}
    (hdirectory : tree.follow file.directory = .ok (folder entries))
    (hlocate : tree.locate file.path = .ok place) (hmissing : tree.find place = .error .notFound) :
    file.Fresh tree where
  missing := by
    rw [follow, hlocate]
    exact hmissing
  opens := ⟨tree, place, run_makeDirectories_of_folder hdirectory, hlocate, hmissing⟩

/-- **Pruning keeps the path of a file fresh.** -/
theorem Fresh.exists_prune (h : file.Fresh tree) :
    ∃ after, StateT.run (file.prune : StateM FileTree _) tree = (⟨⟩, after) ∧ file.Fresh after := by
  by_cases hfolder : ∃ entries, tree.follow file.directory = .ok (folder entries)
  · obtain ⟨made, place, hmade, hlocate, hmissing⟩ := h.opens
    obtain rfl : tree = made := by
      obtain ⟨entries, hfollow⟩ := hfolder
      exact (Prod.mk.inj ((run_makeDirectories_of_folder hfollow).symm.trans hmade)).2
    -- The directory stays a folder, so the path still leads to the place, and nothing gets there.
    obtain ⟨after, hafter, ⟨entries, hkept⟩, hlocate, hmissing⟩ : ∃ after,
        StateT.run (file.prune : StateM FileTree _) tree = (⟨⟩, after) ∧
        (∃ entries, after.follow file.directory = .ok (folder entries)) ∧
        after.locate file.path = .ok place ∧ after.find place = .error .notFound := by
      refine RotatingFile.exists_prune (fun name _ tree changed hkeeps hremove => ?_)
        ⟨hfolder, hlocate, hmissing⟩
      obtain ⟨⟨entries, hfollow⟩, hlocate, hmissing⟩ := hkeeps
      have hfolders := folders_of_remove hremove
      exact ⟨follow_of_folders hfolders hfollow, locate_of_folders hfolders hlocate,
        missing_of_remove hremove hmissing⟩
    exact ⟨after, hafter, fresh_of_directory hkept hlocate hmissing⟩
  · obtain ⟨error, herror⟩ : ∃ error, tree.list file.directory = .error error := by
      rw [list]
      cases hfollow : tree.follow file.directory with
      | error cause => exact ⟨_, rfl⟩
      | ok found =>
          cases found with
          | file content => exact ⟨_, rfl⟩
          | folder entries => exact absurd ⟨entries, hfollow⟩ hfolder
    refine ⟨tree, ?_, h⟩
    rw [prune]
    split
    · rfl
    · rw [run_bind_of_run (run_list tree file.directory), herror]
      rfl

/-! ## Adding lines -/

section Lines

variable {known line time : Text} {size? : Option Nat}

private theorem run_put (h : tree.read file.path = .ok known) (line : Text) :
    ∃ after, StateT.run (file.put line known.length : StateM FileTree _) tree =
        ((.ok ⟨⟩, some (known ++ line).length), after) ∧
      after.read file.path = .ok (known ++ line) := by
  obtain ⟨after, hupdate, hread⟩ := update_of_read h (· ++ line)
  refine ⟨after, ?_, hread⟩
  rw [put, run_bind_of_run (run_append hupdate), List.length_append]
  rfl

/-- A file that is there is opened as it is, if there is room behind it. -/
theorem run_openFor_of_read (h : tree.read file.path = .ok known) (time : Text) {length : Nat}
    (hroom : (known.length + length : Int) < file.limit) :
    ∃ after, StateT.run (file.openFor time length : StateM FileTree _) tree =
        (.ok known.length, after) ∧ after.read file.path = .ok known := by
  obtain ⟨pruned, hprune, hread⟩ := exists_prune_of_read h
  obtain ⟨after, hupdate, hafter⟩ := update_of_read hread (· ++ [])
  rw [List.append_nil] at hafter
  refine ⟨after, ?_, hafter⟩
  rw [openFor, run_bind_of_run hprune, run_bind_of_run (run_stat pruned file.path),
    follow_of_read hread]
  show StateT.run (if file.limit ≤ known.length + length then _ else _) pruned = _
  rw [if_neg (Int.not_le.mpr hroom), run_bind_of_run (run_append hupdate)]
  rfl

/-- A file that is missing is made. -/
theorem run_openFor_of_fresh (h : file.Fresh tree) (time : Text) (length : Nat) :
    ∃ after, StateT.run (file.openFor time length : StateM FileTree _) tree = (.ok 0, after) ∧
      after.read file.path = .ok [] := by
  obtain ⟨pruned, hprune, hfresh⟩ := h.exists_prune
  obtain ⟨made, place, hmade, hlocate, hmissing⟩ := hfresh.opens
  obtain ⟨after, hupdate, hread⟩ := update_of_missing hlocate hmissing fun _ => []
  have hfollow : made.follow file.path = .error .notFound := by
    rw [follow, hlocate]
    exact hmissing
  have hnew : StateT.run (file.openNew time : StateM FileTree _) pruned = (.ok ⟨⟩, after) := by
    rw [openNew, run_bind_of_run hmade, run_bind_of_run (run_stat made file.path), hfollow]
    show StateT.run (file.create .notOpened) made = _
    rw [create, run_bind_of_run (run_write hupdate)]
    rfl
  refine ⟨after, ?_, hread⟩
  rw [openFor, run_bind_of_run hprune, run_bind_of_run (run_stat pruned file.path), hfresh.missing]
  show StateT.run (emptied (file.openNew time)) pruned = _
  rw [emptied, run_bind_of_run hnew]
  rfl

/-- A line for which there is room is added to the file that was opened for it. -/
theorem run_append_of_opened {opened : FileTree}
    (hopen : StateT.run (file.sizeFor time line.length size? : StateM FileTree _) tree =
      (.ok known.length, opened))
    (h : opened.read file.path = .ok known)
    (hroom : (known.length + line.length : Int) ≤ file.limit) :
    ∃ after, StateT.run (file.append time line size? : StateM FileTree _) tree =
        ((.ok ⟨⟩, some (known ++ line).length), after) ∧
      after.read file.path = .ok (known ++ line) := by
  obtain ⟨after, hput, hread⟩ := run_put h line
  refine ⟨after, ?_, hread⟩
  rw [append, if_neg (by omega), run_bind_of_run hopen]
  show StateT.run (if file.limit < known.length + line.length then _ else _) opened = _
  rw [if_neg (by omega), hput]

/-- **A line is added to the end of an open file**, up to the limit. -/
theorem run_append_of_open (h : tree.read file.path = .ok known) (time : Text) {line : Text}
    (hroom : (known.length + line.length : Int) ≤ file.limit) :
    ∃ after, StateT.run (file.append time line (some known.length) : StateM FileTree _) tree =
        ((.ok ⟨⟩, some (known ++ line).length), after) ∧
      after.read file.path = .ok (known ++ line) :=
  run_append_of_opened rfl h hroom

/-- **A line is added to the end of a file that is opened again**, if the file stays below the
limit: one that would come to the limit is moved aside when it is opened. -/
theorem run_append_of_read (h : tree.read file.path = .ok known) (time : Text) {line : Text}
    (hbelow : (known.length + line.length : Int) < file.limit) :
    ∃ after, StateT.run (file.append time line none : StateM FileTree _) tree =
        ((.ok ⟨⟩, some (known ++ line).length), after) ∧
      after.read file.path = .ok (known ++ line) := by
  obtain ⟨opened, hopen, hread⟩ := run_openFor_of_read h time hbelow
  exact run_append_of_opened hopen hread (Int.le_of_lt hbelow)

/-- **A line is the first one of a fresh file.** -/
theorem run_append_of_fresh (h : file.Fresh tree) (time : Text) {line : Text}
    (hroom : (line.length : Int) ≤ file.limit) :
    ∃ after, StateT.run (file.append time line none : StateM FileTree _) tree =
        ((.ok ⟨⟩, some line.length), after) ∧ after.read file.path = .ok line := by
  obtain ⟨opened, hopen, hread⟩ := run_openFor_of_fresh h time line.length
  have hempty : StateT.run (file.sizeFor time line.length none : StateM FileTree _) tree =
      (.ok ([] : Text).length, opened) := hopen
  exact run_append_of_opened hempty hread (by simpa using hroom)

/-- **A line that is longer than the limit is refused** and changes nothing. -/
theorem run_append_of_tooLong (h : file.limit < line.length) (tree : FileTree) (time : Text)
    (size? : Option Nat) :
    StateT.run (file.append time line size? : StateM FileTree _) tree =
      ((.error (.tooLong line.length file.limit), size?), tree) := by
  rw [append, if_pos h]
  rfl

end Lines

end RotatingFile

end Shortfall

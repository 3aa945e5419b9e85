import Shortfall.Proofs.Path
import Shortfall.Taint.Expression

/-!
# What a dotted path stands for

`resolve` looks a path up and falls back to shorter and shorter leading parts of it. Here the same
answer is given without a search: list the leading parts of the path, shortest first, keep those
that are tracked, and take the last. The two agree because cutting a path at its last dot takes
exactly the last entry off its list of leading parts (`leadingParts_eq_append`). What is listed last
is also the longest, so a name that is tracked hides what is known of every shorter one.

## Main results

* `resolve_eq_longestTracked?`: the search finds the last of the tracked leading parts.
* `longestTracked?_eq_some_iff`: that one is the longest.
* `searchEnds_resolve`: the search comes to an end.
* `resolve_finds_longest`: all of this, for every path.
-/

namespace Shortfall.Taint

/-- The leading parts of a dotted path, shortest first: what stands before each of its dots, and
then the path itself. -/
def leadingParts : Text → List Text
  | [] => [[]]
  | byte :: rest =>
      let longer := (leadingParts rest).map (byte :: ·)
      if byte = 0x2E then [] :: longer else longer

/-- The leading parts of a path are those of its parent, and the path. -/
theorem leadingParts_eq_append (path : Text) :
    leadingParts path = ((parentPath? path).map leadingParts).getD [] ++ [path] := by
  induction path with
  | nil => rfl
  | cons byte rest ih =>
      simp only [leadingParts, parentPath?, Text.cutAtLastByte?] at ih ⊢
      rw [ih]
      cases Text.cutAtLastByte? 0x2E rest with
      | some cut =>
          simp only [Option.map_some, Option.getD_some, List.map_append, leadingParts]
          split <;> rfl
      | none =>
          -- No dot behind the first byte: the first byte is the last dot, or there is none.
          by_cases hdot : byte = 0x2E
          · simp [hdot, leadingParts]
          · simp [hdot]

/-- A leading part of a path: what stands before one of its dots, or the path itself. -/
def IsLeadingPart (part path : Text) : Prop :=
  part = path ∨ ∃ behind, path = part ++ 0x2E :: behind

theorem isLeadingPart_nil_iff {part : Text} : IsLeadingPart part [] ↔ part = [] := by
  constructor
  · rintro (rfl | ⟨behind, hbehind⟩)
    · rfl
    · simp at hbehind
  · exact .inl

theorem isLeadingPart_cons_iff {byte : UInt8} {part rest : Text} :
    IsLeadingPart part (byte :: rest) ↔
      byte = 0x2E ∧ part = [] ∨ ∃ shorter, IsLeadingPart shorter rest ∧ part = byte :: shorter := by
  constructor
  · rintro (rfl | ⟨behind, hbehind⟩)
    · exact .inr ⟨rest, .inl rfl, rfl⟩
    · cases part with
      | nil => exact .inl ⟨(List.cons.inj hbehind).1, rfl⟩
      | cons first part =>
          obtain ⟨rfl, hrest⟩ := List.cons.inj hbehind
          exact .inr ⟨part, .inr ⟨behind, hrest⟩, rfl⟩
  · rintro (⟨rfl, rfl⟩ | ⟨shorter, rfl | ⟨behind, rfl⟩, rfl⟩)
    · exact .inr ⟨rest, rfl⟩
    · exact .inl rfl
    · exact .inr ⟨behind, rfl⟩

private theorem IsLeadingPart.prefix_path {part path : Text} (h : IsLeadingPart part path) :
    part <+: path := by
  rcases h with rfl | ⟨behind, rfl⟩
  · exact List.prefix_rfl
  · exact List.prefix_append part _

theorem mem_leadingParts {part path : Text} :
    part ∈ leadingParts path ↔ IsLeadingPart part path := by
  induction path generalizing part with
  | nil => rw [leadingParts, List.mem_singleton, isLeadingPart_nil_iff]
  | cons byte rest ih =>
      have hlonger : part ∈ (leadingParts rest).map (byte :: ·) ↔
          ∃ shorter, IsLeadingPart shorter rest ∧ part = byte :: shorter := by
        simp only [List.mem_map, ih, eq_comm]
      rw [leadingParts, isLeadingPart_cons_iff, ← hlonger]
      split
      case isTrue hdot => simp only [List.mem_cons, hdot, true_and]
      case isFalse hdot => simp only [hdot, false_and, false_or]

/-- The leading parts of a path are listed from the shortest to the longest. -/
theorem leadingParts_ascend (path : Text) :
    (leadingParts path).Pairwise fun part other => part.length < other.length := by
  induction path with
  | nil => exact List.pairwise_singleton _ _
  | cons byte rest ih =>
      have hlonger : ((leadingParts rest).map (byte :: ·)).Pairwise
          fun part other => part.length < other.length :=
        List.pairwise_map.mpr (ih.imp Nat.succ_lt_succ)
      rw [leadingParts]
      split
      · refine List.pairwise_cons.mpr ⟨fun other hother => ?_, hlonger⟩
        obtain ⟨shorter, _, rfl⟩ := List.mem_map.mp hother
        exact Nat.succ_pos _
      · exact hlonger

namespace State

/-- The longest leading part of a path that is a name and tracked. -/
def longestTracked? (σ : State) (path : Text) : Option Text :=
  ((leadingParts path).filter fun part => !part.isEmpty && σ.tracks part).getLast?

/-- The longest of the leading parts of a path that are names and tracked. -/
structure IsLongestTracked (σ : State) (path name : Text) : Prop where
  leading : IsLeadingPart name path
  ne_nil : name ≠ []
  tracked : σ.tracks name = true
  longest : ∀ other, IsLeadingPart other path → other ≠ [] → σ.tracks other = true →
    other.length ≤ name.length

section Longest

variable {σ : State} {path name : Text}

theorem mem_tracked_iff {part : Text} :
    part ∈ (leadingParts path).filter (fun part => !part.isEmpty && σ.tracks part) ↔
      IsLeadingPart part path ∧ part ≠ [] ∧ σ.tracks part = true := by
  rw [List.mem_filter, mem_leadingParts, Bool.and_eq_true, Bool.not_eq_true',
    List.isEmpty_eq_false_iff]

theorem isSome_longestTracked?_iff :
    (σ.longestTracked? path).isSome = true ↔
      ∃ part, IsLeadingPart part path ∧ part ≠ [] ∧ σ.tracks part = true := by
  rw [longestTracked?, List.getLast?_isSome]
  constructor
  · intro hne
    obtain ⟨part, hpart⟩ := List.exists_mem_of_ne_nil _ hne
    exact ⟨part, mem_tracked_iff.mp hpart⟩
  · rintro ⟨part, hpart⟩
    exact List.ne_nil_of_mem (mem_tracked_iff.mpr hpart)

/-- The tracked leading part that is listed last is the longest one. -/
theorem isLongestTracked_of_eq_some (h : σ.longestTracked? path = some name) :
    σ.IsLongestTracked path name := by
  obtain ⟨front, hfront⟩ := List.getLast?_eq_some_iff.mp h
  obtain ⟨hleading, hne, htracked⟩ := mem_tracked_iff.mp (List.mem_of_getLast? h)
  refine ⟨hleading, hne, htracked, fun other hother hotherNe hotherTracked => ?_⟩
  have hascend := (leadingParts_ascend path).filter fun part => !part.isEmpty && σ.tracks part
  have hmem := mem_tracked_iff.mpr ⟨hother, hotherNe, hotherTracked⟩
  rw [hfront] at hmem hascend
  rcases List.mem_append.mp hmem with hshorter | hlast
  · have hlt := (List.pairwise_append.mp hascend).2.2 other hshorter name List.mem_cons_self
    exact Nat.le_of_lt hlt
  · exact Nat.le_of_eq (congrArg List.length (List.mem_singleton.mp hlast))

/-- Leading parts of one length are the same. -/
theorem IsLongestTracked.eq {other : Text} (h : σ.IsLongestTracked path name)
    (hother : σ.IsLongestTracked path other) : name = other := by
  have hle := hother.longest name h.leading h.ne_nil h.tracked
  have hge := h.longest other hother.leading hother.ne_nil hother.tracked
  exact (List.prefix_of_prefix_length_le h.leading.prefix_path hother.leading.prefix_path
    hle).eq_of_length (Nat.le_antisymm hle hge)

theorem longestTracked?_eq_some_iff :
    σ.longestTracked? path = some name ↔ σ.IsLongestTracked path name := by
  constructor
  · exact isLongestTracked_of_eq_some
  · intro h
    have hsome := isSome_longestTracked?_iff.mpr ⟨name, h.leading, h.ne_nil, h.tracked⟩
    obtain ⟨found, hfound⟩ := Option.isSome_iff_exists.mp hsome
    rw [hfound, h.eq (isLongestTracked_of_eq_some hfound)]

theorem tracks_of_longestTracked? (h : σ.longestTracked? path = some name) :
    σ.tracks name = true :=
  (isLongestTracked_of_eq_some h).tracked

theorem ne_nil_of_longestTracked? (h : σ.longestTracked? path = some name) : name ≠ [] :=
  (isLongestTracked_of_eq_some h).ne_nil

end Longest

theorem tracks_iff {σ : State} {name : Text} :
    σ.tracks name = true ↔ ∃ level, σ.levels.get? name = some level :=
  Option.isSome_iff_exists

theorem level_of_get? {σ : State} {name : Text} {level : Level}
    (h : σ.levels.get? name = some level) : σ.level name = level := by
  rw [State.level, h, Option.getD_some]

theorem longestTracked?_of_tracks {σ : State} {path : Text} (hpath : path.isEmpty = false)
    (h : σ.tracks path = true) : σ.longestTracked? path = some path := by
  rw [longestTracked?, leadingParts_eq_append path]
  simp [hpath, h]

theorem longestTracked?_of_not_tracks {σ : State} {path : Text} (h : σ.tracks path = false) :
    σ.longestTracked? path = (parentPath? path).bind σ.longestTracked? := by
  rw [longestTracked?, leadingParts_eq_append path]
  cases parentPath? path with
  | none => simp [h]
  | some parent => simp [h, longestTracked?]

theorem level_of_not_tracks {σ : State} {name : Text} (h : σ.tracks name = false) :
    σ.level name = .untainted := by
  rw [tracks, NameMap.contains, Option.isSome_eq_false_iff, Option.isNone_iff_eq_none] at h
  rw [level, h, Option.getD_none]

/-- The search finds the longest tracked leading part, with its level. -/
theorem resolve_eq_longestTracked? (σ : State) (path : Text) :
    σ.resolve path = (σ.longestTracked? path).map fun name => (name, σ.level name) := by
  fun_induction State.resolve σ path with
  | case1 path hempty =>
      rw [List.isEmpty_iff] at hempty
      subst hempty
      rfl
  | case2 path hpath level hget =>
      rw [Bool.not_eq_true] at hpath
      rw [longestTracked?_of_tracks hpath (tracks_iff.mpr ⟨level, hget⟩), Option.map_some,
        level_of_get? hget]
  | case3 path hpath hget parent hparent ih =>
      have htracks : σ.tracks path = false := by rw [tracks, NameMap.contains, hget]; rfl
      rw [ih, longestTracked?_of_not_tracks htracks, hparent, Option.bind_some]
  | case4 path hpath hget hparent =>
      have htracks : σ.tracks path = false := by rw [tracks, NameMap.contains, hget]; rfl
      rw [longestTracked?_of_not_tracks htracks, hparent]
      rfl

end State

/-! ## The search -/

theorem parentPath?_eq_some_iff {path parent : Text} :
    parentPath? path = some parent ↔
      ∃ component, path = parent ++ 0x2E :: component ∧ 0x2E ∉ component := by
  constructor
  · intro h
    obtain ⟨⟨front, component⟩, hcut, rfl⟩ := Option.map_eq_some_iff.mp h
    exact ⟨component, Text.cutAtLastByte?_eq_some hcut⟩
  · rintro ⟨component, rfl, hcomponent⟩
    rw [parentPath?, Text.cutAtLastByte?_append_cons hcomponent, Option.map_some]

theorem parentPath?_eq_none_iff {path : Text} : parentPath? path = none ↔ 0x2E ∉ path := by
  rw [parentPath?, Option.map_eq_none_iff]
  exact ⟨Text.not_mem_of_cutAtLastByte?_eq_none, Text.cutAtLastByte?_of_not_mem⟩

/-- The search for what a path stands for comes to its end with a result, after at most `lookups`
look-ups. Where a name is not tracked, the next one is what stands before its last dot. -/
inductive SearchEnds (σ : State) : (lookups : Nat) → Text → Option (Text × Level) → Prop
  | empty (lookups : Nat) : SearchEnds σ lookups [] none
  | found {lookups name level} (hname : name ≠ []) (hget : σ.levels.get? name = some level) :
      SearchEnds σ (lookups + 1) name (some (name, level))
  | exhausted {lookups name} (hname : name ≠ []) (hget : σ.levels.get? name = none)
      (hdot : 0x2E ∉ name) : SearchEnds σ (lookups + 1) name none
  | shorten {lookups parent component result}
      (hget : σ.levels.get? (parent ++ 0x2E :: component) = none) (hdot : 0x2E ∉ component)
      (hparent : SearchEnds σ lookups parent result) :
      SearchEnds σ (lookups + 1) (parent ++ 0x2E :: component) result

/-- **The search comes to an end**: each look-up but the first has cost a dot. -/
theorem searchEnds_resolve (σ : State) (path : Text) :
    SearchEnds σ (path.count 0x2E + 1) path (σ.resolve path) := by
  fun_induction State.resolve σ path with
  | case1 path hempty =>
      rw [List.isEmpty_iff.mp hempty]
      exact .empty _
  | case2 path hpath level hget =>
      rw [List.isEmpty_iff] at hpath
      exact .found hpath hget
  | case3 path hpath hget parent hparent ih =>
      obtain ⟨component, rfl, hdot⟩ := parentPath?_eq_some_iff.mp hparent
      rw [List.count_append, List.count_cons_self, List.count_eq_zero.mpr hdot]
      exact .shorten hget hdot ih
  | case4 path hpath hget hparent =>
      rw [List.isEmpty_iff] at hpath
      exact .exhausted hpath hget (parentPath?_eq_none_iff.mp hparent)

private theorem State.resolve_of_get?_eq_none {σ : State} {path : Text} (hpath : path ≠ [])
    (hget : σ.levels.get? path = none) : σ.resolve path = (parentPath? path).bind σ.resolve := by
  rw [State.resolve, if_neg (by simpa using hpath)]
  simp only [hget]
  split
  case h_1 parent hparent => rw [hparent, Option.bind_some]
  case h_2 hparent => rw [hparent, Option.bind_none]

private theorem SearchEnds.eq_resolve {σ : State} {lookups : Nat} {path : Text}
    {result : Option (Text × Level)} (h : SearchEnds σ lookups path result) :
    result = σ.resolve path := by
  induction h with
  | empty lookups =>
      rw [State.resolve]
      rfl
  | found hname hget =>
      rw [State.resolve, if_neg (by simpa using hname), hget]
  | exhausted hname hget hdot =>
      rw [State.resolve_of_get?_eq_none hname hget, parentPath?_eq_none_iff.mpr hdot]
      rfl
  | shorten hget hdot _ ih =>
      rw [State.resolve_of_get?_eq_none (by simp) hget,
        parentPath?_eq_some_iff.mpr ⟨_, rfl, hdot⟩, ih]
      rfl

namespace State

/-- **A path stands for its longest tracked leading part.** The search succeeds just if the path, or
what stands before one of its dots, is a name that is tracked. It then gives the longest of these
names, and its level. It comes to an end on every text, with one result and after at most one
look-up more than the text has dots. -/
theorem resolve_finds_longest (σ : State) (path : Text) :
    ((σ.resolve path).isSome = true ↔
      ∃ part, IsLeadingPart part path ∧ part ≠ [] ∧ σ.tracks part = true) ∧
    (∀ name level, σ.resolve path = some (name, level) ↔
      σ.IsLongestTracked path name ∧ level = σ.level name) ∧
    ∀ result, SearchEnds σ (path.count 0x2E + 1) path result ↔ result = σ.resolve path := by
  refine ⟨?_, ?_, ?_⟩
  · rw [resolve_eq_longestTracked?, Option.isSome_map, isSome_longestTracked?_iff]
  · intro name level
    rw [resolve_eq_longestTracked?, Option.map_eq_some_iff]
    constructor
    · rintro ⟨found, hfound, hpair⟩
      obtain ⟨rfl, rfl⟩ := Prod.mk.inj hpair
      exact ⟨longestTracked?_eq_some_iff.mp hfound, rfl⟩
    · rintro ⟨hname, rfl⟩
      exact ⟨name, longestTracked?_eq_some_iff.mpr hname, rfl⟩
  · intro result
    constructor
    · exact SearchEnds.eq_resolve
    · rintro rfl
      exact searchEnds_resolve σ path

/-- A tracked member hides the level of a tainted variable. -/
example : ((empty.write "u" .tainted none).write "u.n" .untainted none).resolve "u.n.f" =
    some (("u.n" : Text), .untainted) := by
  rw [resolve_eq_longestTracked?]
  decide

end State

end Shortfall.Taint

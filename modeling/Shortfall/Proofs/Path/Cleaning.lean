import Shortfall.Proofs.Path

/-!
# Cleaned paths and the directories they lead through

Cleaning leaves names, and in front of them steps upwards where the path is not absolute; nothing of
this is touched when it is cleaned again (`IsSettled`). So the path that is joined from a directory
and a name can be taken apart into both: the name is its last component, and what stands in front of
it is what cleaning leaves of the directory (`isChild_join`). The empty directory is the one where
paths begin, and is no exception.

## Main results

* `isSettled_components`, `foldl_push_reverse`: what cleaning leaves, and that it stays.
* `isChild_join`: a name that is joined to a directory is directly in it.
-/

namespace Shortfall.Path

/-! ## What cleaning leaves -/

/-- The components of a cleaned path, in reverse: names, and steps upwards behind them that only a
path has which is not absolute. -/
def IsSettled (absolute : Bool) : List Text → Prop
  | [] => True
  | last :: rest =>
      last ≠ [] ∧ last ≠ "." ∧
        (last = ".." → absolute = false ∧ ∀ component ∈ rest, component = "..") ∧
        IsSettled absolute rest

section Settled

variable {absolute : Bool} {reversed : List Text} {component : Text}

private theorem isSettled_push (h : IsSettled absolute reversed) (component : Text) :
    IsSettled absolute (push absolute reversed component) := by
  unfold push
  split
  · exact h
  next hproper =>
  simp only [Bool.or_eq_true, List.isEmpty_iff, decide_eq_true_eq, not_or] at hproper
  split
  · next habove =>
      cases reversed with
      | nil =>
          cases absolute with
          | true => exact trivial
          | false => exact ⟨hproper.1, hproper.2, fun _ => ⟨rfl, by simp⟩, trivial⟩
      | cons last rest =>
          have ⟨_, _, hlast, hbefore⟩ := h
          show IsSettled absolute (if last = ".." then component :: last :: rest else rest)
          split
          · next hup =>
              obtain ⟨hrelative, hups⟩ := hlast hup
              refine ⟨hproper.1, hproper.2, fun _ => ⟨hrelative, ?_⟩, h⟩
              rw [List.forall_mem_cons]
              exact ⟨hup, hups⟩
          · exact hbefore
  · next hname => exact ⟨hproper.1, hproper.2, fun habove => absurd habove hname, h⟩

private theorem isSettled_foldl_push (parts : List Text) (h : IsSettled absolute reversed) :
    IsSettled absolute (parts.foldl (push absolute) reversed) := by
  induction parts generalizing reversed with
  | nil => exact h
  | cons part parts ih => exact ih (isSettled_push h part)

theorem isSettled_components (path : Text) :
    IsSettled (isAbsolute path) (components path).reverse := by
  rw [components, List.reverse_reverse]
  exact isSettled_foldl_push _ trivial

private theorem push_of_isSettled {last : Text} (h : IsSettled absolute (last :: reversed)) :
    push absolute reversed last = last :: reversed := by
  obtain ⟨hne, hhere, hups, _⟩ := h
  unfold push
  rw [if_neg (by simp [hne, hhere])]
  split
  · next habove =>
      obtain ⟨hrelative, hups⟩ := hups habove
      cases reversed with
      | nil => rw [hrelative]; rfl
      | cons before rest => exact if_pos (hups before List.mem_cons_self)
  · rfl

/-- **What cleaning has left stays** when it is cleaned again. -/
theorem foldl_push_reverse (h : IsSettled absolute reversed) :
    reversed.reverse.foldl (push absolute) [] = reversed := by
  induction reversed with
  | nil => rfl
  | cons last rest ih =>
      rw [List.reverse_cons, List.foldl_append, ih h.2.2.2, List.foldl_cons, List.foldl_nil,
        push_of_isSettled h]

private theorem foldl_push_components (path : Text) :
    (components path).foldl (push (isAbsolute path)) [] = (components path).reverse := by
  have hstays := foldl_push_reverse (isSettled_components path)
  rwa [List.reverse_reverse] at hstays

private theorem ne_nil_of_isSettled (h : IsSettled absolute reversed)
    (hmem : component ∈ reversed) : component ≠ [] := by
  induction reversed with
  | nil => exact absurd hmem List.not_mem_nil
  | cons last rest ih =>
      rcases List.mem_cons.mp hmem with rfl | hrest
      · exact h.1
      · exact ih h.2.2.2 hrest

end Settled

/-! ## Taking a joined path apart -/

section Join

variable {directory name : Text}

theorem isAbsolute_eq_false_of_not_mem {path : Text} (h : slash ∉ path) :
    isAbsolute path = false := by
  cases path with
  | nil => rfl
  | cons byte rest =>
      have hbyte : byte ≠ slash := fun heq => h (heq ▸ List.mem_cons_self)
      simpa [isAbsolute] using hbyte

/-- In the directory where paths begin, the path of a file is its name. -/
theorem join_nil (hname : IsName name) : join [] name = name := by
  have hcomponents : components name = [name] := by
    rw [components, Text.splitAtByte_of_not_mem hname.slash_not_mem, List.foldl_cons,
      List.foldl_nil, push_name hname]
    rfl
  have hempty : name.isEmpty = false := List.isEmpty_eq_false_iff.mpr hname.ne_nil
  have hclean : clean name = name := by
    rw [clean, hcomponents, isAbsolute_eq_false_of_not_mem hname.slash_not_mem]
    simp only [Text.joinWith, hempty, Bool.false_eq_true, if_false]
  rw [join, hempty, hclean]
  rfl

private theorem join_eq_lead (directory : Text) (hname : IsName name) :
    join directory name = lead directory ++ name := by
  by_cases hdirectory : directory = []
  · rw [hdirectory, join_nil hname]
    rfl
  · exact join_eq hdirectory hname

/-- The lead of a path is nothing, or a path with a slash at its end. -/
theorem lead_eq_nil_or_concat (directory : Text) :
    lead directory = [] ∧ isAbsolute directory = false ∧ components directory = [] ∨
      ∃ front, lead directory = front ++ [slash] := by
  rw [lead]
  rcases List.eq_nil_or_concat (components directory) with hnone | ⟨before, last, hlast⟩
  · cases habsolute : isAbsolute directory with
    | true => exact .inr ⟨[], by rw [hnone]; rfl⟩
    | false => exact .inl ⟨by rw [hnone]; rfl, rfl, hnone⟩
  · right
    refine ⟨(if isAbsolute directory then [slash] else []) ++
      (before.flatMap (· ++ [slash]) ++ last), ?_⟩
    rw [hlast, List.concat_eq_append, List.flatMap_append, List.flatMap_singleton]
    simp only [List.append_assoc]

theorem isAbsolute_lead_append {last : Text} (hlast : slash ∉ last) :
    isAbsolute (lead directory ++ last) = isAbsolute directory := by
  rw [lead]
  cases habsolute : isAbsolute directory with
  | true => rfl
  | false =>
      cases hcomponents : components directory with
      | nil => exact isAbsolute_eq_false_of_not_mem hlast
      | cons first rest =>
          have hmem : first ∈ components directory := hcomponents ▸ List.mem_cons_self
          have hne : first ≠ [] :=
            ne_nil_of_isSettled (isSettled_components directory) (List.mem_reverse.mpr hmem)
          have hfirst := isAbsolute_eq_false_of_not_mem (slash_not_mem_of_mem_components hmem)
          have hleft : [] ++ (first :: rest).flatMap (· ++ [slash]) ++ last =
              first ++ ([slash] ++ (rest.flatMap (· ++ [slash]) ++ last)) := by
            simp only [List.nil_append, List.flatMap_cons, List.append_assoc]
          rw [if_neg Bool.false_ne_true, hleft, isAbsolute_append hne, hfirst]

/-- Behind the lead of a directory, cleaning goes on where it stopped. -/
theorem components_lead_append {last : Text} (hlast : slash ∉ last) :
    components (lead directory ++ last) =
      (push (isAbsolute directory) (components directory).reverse last).reverse := by
  have hstart : (if isAbsolute directory then [[]] else []).foldl (push (isAbsolute directory)) [] =
      [] := by
    cases isAbsolute directory <;> rfl
  rw [components, isAbsolute_lead_append hlast, splitAtByte_lead_append hlast, List.foldl_append,
    hstart, List.foldl_append, foldl_push_components, List.foldl_cons, List.foldl_nil]

private theorem clean_lead (directory : Text) : clean (lead directory) = clean directory := by
  have hslash : slash ∉ ([] : Text) := List.not_mem_nil
  have habsolute : isAbsolute (lead directory) = isAbsolute directory := by
    rw [← List.append_nil (lead directory), isAbsolute_lead_append hslash]
  have hcomponents : components (lead directory) = components directory := by
    rw [← List.append_nil (lead directory), components_lead_append hslash]
    exact List.reverse_reverse _
  rw [clean, clean, habsolute, hcomponents]

/-! ## Direct children -/

/-- The path leads to something with the name directly in a directory: it begins where the path of
the directory begins, goes through the components that cleaning leaves of that, and then to the
name. Taken apart, it gives the cleaned directory and the name. -/
structure IsChild (directory name path : Text) : Prop where
  isAbsolute_eq : isAbsolute path = isAbsolute directory
  components_eq : components path = components directory ++ [name]
  directory_eq : Path.directory path = clean directory
  base_eq : base path = name

private theorem cutAtLastByte?_lead_append {front : Text}
    (hfront : lead directory = front ++ [slash]) (hname : slash ∉ name) :
    (lead directory ++ name).cutAtLastByte? slash = some (front, name) := by
  rw [hfront, List.append_assoc, List.singleton_append, Text.cutAtLastByte?_append_cons hname]

private theorem directory_lead_append (hname : IsName name) :
    Path.directory (lead directory ++ name) = clean directory := by
  have hslash := hname.slash_not_mem
  rcases lead_eq_nil_or_concat directory with ⟨hlead, habsolute, hcomponents⟩ | ⟨front, hfront⟩
  · rw [hlead, List.nil_append, Path.directory, Text.cutAtLastByte?_of_not_mem hslash, clean,
      habsolute, hcomponents]
    rfl
  · rw [Path.directory, cutAtLastByte?_lead_append hfront hslash]
    show clean (front ++ [slash]) = _
    rw [← hfront, clean_lead]

private theorem base_lead_append (hname : IsName name) : base (lead directory ++ name) = name := by
  have hslash := hname.slash_not_mem
  have hkept := dropSlashes_append (lead directory) hname.ne_nil hslash
  rcases lead_eq_nil_or_concat directory with ⟨hlead, _⟩ | ⟨front, hfront⟩
  · rw [hlead, List.nil_append, base_eq_self hname.ne_nil hslash]
  · have hcut := cutAtLastByte?_lead_append hfront hslash
    have hempty : (lead directory ++ name).isEmpty = false :=
      List.isEmpty_eq_false_iff.mpr (List.append_ne_nil_of_right_ne_nil _ hname.ne_nil)
    simp only [base, hempty, hkept, hcut, Bool.false_eq_true, if_false]

/-- **A name that is joined to a directory is directly in it**, whatever the path of the directory
is. -/
theorem isChild_join (directory : Text) (hname : IsName name) :
    IsChild directory name (join directory name) := by
  rw [join_eq_lead directory hname]
  refine ⟨isAbsolute_lead_append hname.slash_not_mem, ?_, directory_lead_append hname,
    base_lead_append hname⟩
  rw [components_lead_append hname.slash_not_mem, push_name hname, List.reverse_cons,
    List.reverse_reverse]

end Join

end Shortfall.Path

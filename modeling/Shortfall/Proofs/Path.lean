import Shortfall.Path

/-!
# Names in a directory

A file is found by joining its name to the path of its directory, which cleans the path on the way.
Cleaning looks at components only, so nothing happens to the name: the joined path is a lead that
depends on the directory alone, followed by the name (`join_eq`). Different names therefore have
different paths, and a longer name has a longer path. Taken apart again, the joined path is what
cleaning has left of the directory, and then the name (`splitAtByte_join`).

What a file name ends in is found behind its last point, which in turn is where a name and an ending
meet that were put together (`extension_append`, `stem_append`).
-/

namespace Shortfall

namespace Text

variable {separator : UInt8}

theorem splitAtByte_ne_nil (separator : UInt8) (text : Text) :
    text.splitAtByte separator ≠ [] := by
  cases text with
  | nil => exact List.cons_ne_nil _ _
  | cons byte rest =>
      rw [splitAtByte]
      split
      · exact List.cons_ne_nil _ _
      · split <;> exact List.cons_ne_nil _ _

/-- A text is taken apart at each of its separators. -/
theorem splitAtByte_append_cons (front back : Text) :
    (front ++ separator :: back).splitAtByte separator =
      front.splitAtByte separator ++ back.splitAtByte separator := by
  induction front with
  | nil => simp [splitAtByte]
  | cons byte rest ih =>
      rw [List.cons_append, splitAtByte, splitAtByte, ih]
      split
      · rfl
      · cases hsplit : splitAtByte separator rest with
        | nil => exact absurd hsplit (splitAtByte_ne_nil separator rest)
        | cons part parts => rfl

theorem splitAtByte_of_not_mem {text : Text} (h : separator ∉ text) :
    text.splitAtByte separator = [text] := by
  induction text with
  | nil => rfl
  | cons byte rest ih =>
      rw [List.mem_cons, not_or] at h
      rw [splitAtByte, if_neg (Ne.symm h.1), ih h.2]

private theorem not_mem_of_mem_splitAtByte {text part : Text}
    (h : part ∈ text.splitAtByte separator) : separator ∉ part := by
  induction text generalizing part with
  | nil =>
      rw [List.mem_singleton.mp h]
      exact List.not_mem_nil
  | cons byte rest ih =>
      rw [splitAtByte] at h
      split at h
      · rcases List.mem_cons.mp h with rfl | hrest
        · exact List.not_mem_nil
        · exact ih hrest
      · next hbyte =>
          cases hsplit : splitAtByte separator rest with
          | nil => exact absurd hsplit (splitAtByte_ne_nil separator rest)
          | cons first parts =>
              simp only [hsplit] at h
              rcases List.mem_cons.mp h with rfl | hrest
              · rw [List.mem_cons, not_or]
                exact ⟨Ne.symm hbyte, ih (hsplit ▸ List.mem_cons_self)⟩
              · exact ih (hsplit ▸ List.mem_cons_of_mem _ hrest)

/-- Parts that have separators behind them are given back. -/
theorem splitAtByte_flatMap_append {parts : List Text} (hparts : ∀ part ∈ parts, separator ∉ part)
    (last : Text) :
    splitAtByte separator (parts.flatMap (· ++ [separator]) ++ last) =
      parts ++ splitAtByte separator last := by
  induction parts with
  | nil => rfl
  | cons part parts ih =>
      rw [List.forall_mem_cons] at hparts
      rw [List.flatMap_cons, List.append_assoc, List.append_assoc, List.singleton_append,
        splitAtByte_append_cons, splitAtByte_of_not_mem hparts.1, ih hparts.2]
      rfl

theorem joinWith_concat (separator : Text) (parts : List Text) (last : Text) :
    joinWith separator (parts ++ [last]) = parts.flatMap (· ++ separator) ++ last := by
  induction parts with
  | nil => rfl
  | cons part parts ih =>
      have hne : parts ++ [last] ≠ [] :=
        List.append_ne_nil_of_right_ne_nil parts (List.cons_ne_nil last [])
      rw [List.cons_append, joinWith, ih, List.flatMap_cons]
      · simp only [List.append_assoc]
      · exact hne

theorem cutAtLastByte?_of_not_mem {text : Text} (h : separator ∉ text) :
    text.cutAtLastByte? separator = none := by
  induction text with
  | nil => rfl
  | cons byte rest ih =>
      rw [List.mem_cons, not_or] at h
      rw [cutAtLastByte?, ih h.2]
      exact if_neg (Ne.symm h.1)

theorem cutAtLastByte?_append_cons {back : Text} (h : separator ∉ back) (front : Text) :
    (front ++ separator :: back).cutAtLastByte? separator = some (front, back) := by
  induction front with
  | nil =>
      rw [List.nil_append, cutAtLastByte?, cutAtLastByte?_of_not_mem h]
      exact if_pos rfl
  | cons byte front ih => rw [List.cons_append, cutAtLastByte?, ih]

theorem not_mem_of_cutAtLastByte?_eq_none {text : Text}
    (h : text.cutAtLastByte? separator = none) : separator ∉ text := by
  induction text with
  | nil => exact List.not_mem_nil
  | cons byte rest ih =>
      rw [cutAtLastByte?] at h
      split at h
      case h_1 => cases h
      case h_2 hrest =>
        split at h
        case isTrue => cases h
        case isFalse hbyte =>
          rw [List.mem_cons, not_or]
          exact ⟨Ne.symm hbyte, ih hrest⟩

theorem cutAtLastByte?_eq_some {text front back : Text}
    (h : text.cutAtLastByte? separator = some (front, back)) :
    text = front ++ separator :: back ∧ separator ∉ back := by
  induction text generalizing front with
  | nil => cases h
  | cons byte rest ih =>
      rw [cutAtLastByte?] at h
      split at h
      case h_1 shorter behind hrest =>
        cases h
        obtain ⟨hcut, hback⟩ := ih hrest
        exact ⟨by rw [hcut, List.cons_append], hback⟩
      case h_2 hrest =>
        split at h
        case isTrue hbyte =>
          cases h
          exact ⟨by rw [hbyte, List.nil_append], not_mem_of_cutAtLastByte?_eq_none hrest⟩
        case isFalse => cases h

theorem dropEnding_append (front ending : Text) : (front ++ ending).dropEnding ending = front := by
  have hends : (front ++ ending).endsWith ending = true := by
    rw [endsWith, List.isSuffixOf_iff_suffix]
    exact List.suffix_append front ending
  rw [dropEnding, if_pos hends, List.length_append, Nat.add_sub_cancel, List.take_left']
  rfl

theorem dropEnding_prefix (text ending : Text) : text.dropEnding ending <+: text := by
  unfold dropEnding
  split
  · exact List.take_prefix _ _
  · exact List.prefix_rfl

theorem length_le_dropEnding (text ending : Text) :
    text.length ≤ (text.dropEnding ending).length + ending.length := by
  unfold dropEnding
  split
  · rw [List.length_take]
    omega
  · exact Nat.le_add_right _ _

end Text

namespace Path

/-- A name that an entry of a directory can have. -/
structure IsName (name : Text) : Prop where
  ne_nil : name ≠ []
  ne_here : name ≠ "."
  ne_above : name ≠ ".."
  slash_not_mem : slash ∉ name

instance (name : Text) : Decidable (IsName name) :=
  decidable_of_iff (name ≠ [] ∧ name ≠ "." ∧ name ≠ ".." ∧ slash ∉ name)
    ⟨fun h => ⟨h.1, h.2.1, h.2.2.1, h.2.2.2⟩,
      fun h => ⟨h.ne_nil, h.ne_here, h.ne_above, h.slash_not_mem⟩⟩

/-! ## Joined paths -/

section Join

variable {directory name : Text}

theorem push_name (h : IsName name) (absolute : Bool) (reversed : List Text) :
    push absolute reversed name = name :: reversed := by
  have hempty : name.isEmpty = false := by
    rw [List.isEmpty_eq_false_iff]
    exact h.ne_nil
  unfold push
  rw [if_neg (by simp [hempty, h.ne_here]), if_neg h.ne_above]

theorem mem_push {absolute : Bool} {reversed : List Text} {component part : Text}
    (h : part ∈ push absolute reversed component) : part = component ∨ part ∈ reversed := by
  unfold push at h
  split at h
  · exact .inr h
  split at h
  · split at h
    · split at h
      · exact absurd h List.not_mem_nil
      · exact .inl (List.mem_singleton.mp h)
    · split at h
      · exact List.mem_cons.mp h
      · exact .inr (List.mem_cons_of_mem _ h)
  · exact List.mem_cons.mp h

theorem slash_not_mem_of_mem_components {path component : Text} (h : component ∈ components path) :
    slash ∉ component := by
  have hfold : ∀ (parts reversed : List Text), component ∈ parts.foldl (push (isAbsolute path))
      reversed → component ∈ parts ∨ component ∈ reversed := by
    intro parts
    induction parts with
    | nil => exact fun _ => .inr
    | cons part parts ih =>
        intro reversed hmem
        rcases ih _ hmem with hlater | hpushed
        · exact .inl (List.mem_cons_of_mem _ hlater)
        · rcases mem_push hpushed with rfl | hearlier
          · exact .inl List.mem_cons_self
          · exact .inr hearlier
  rcases hfold _ _ (List.mem_reverse.mp h) with hpart | hnone
  · exact Text.not_mem_of_mem_splitAtByte hpart
  · exact absurd hnone List.not_mem_nil

theorem isAbsolute_append (hdirectory : directory ≠ []) (rest : Text) :
    isAbsolute (directory ++ rest) = isAbsolute directory := by
  cases directory with
  | nil => exact absurd rfl hdirectory
  | cons byte front => rfl

theorem components_append (hdirectory : directory ≠ []) (hname : IsName name) :
    components (directory ++ slash :: name) = components directory ++ [name] := by
  rw [components, isAbsolute_append hdirectory, Text.splitAtByte_append_cons,
    Text.splitAtByte_of_not_mem hname.slash_not_mem, List.foldl_append, List.foldl_cons,
    List.foldl_nil, push_name hname, List.reverse_cons, components]

/-- What stands before the name in the path of a file of a directory. -/
def lead (directory : Text) : Text :=
  (if isAbsolute directory then [slash] else []) ++ (components directory).flatMap (· ++ [slash])

/-- **The path of a file** is a lead that depends on the directory alone, and the name. -/
theorem join_eq (hdirectory : directory ≠ []) (hname : IsName name) :
    join directory name = lead directory ++ name := by
  have hjoined : directory ++ [slash] ++ name = directory ++ slash :: name := by simp
  have hempty : ((components directory).flatMap (· ++ [slash]) ++ name).isEmpty = false := by
    rw [List.isEmpty_eq_false_iff]
    exact List.append_ne_nil_of_right_ne_nil _ hname.ne_nil
  rw [join, if_neg (by simp [hdirectory]), if_neg (by simp [hname.ne_nil]), hjoined, clean,
    components_append hdirectory hname, isAbsolute_append hdirectory, Text.joinWith_concat, lead]
  by_cases habsolute : isAbsolute directory = true
  · simp [habsolute]
  · simp only [habsolute, Bool.false_eq_true, if_false, hempty, List.nil_append]

theorem splitAtByte_lead_append {last : Text} (hlast : slash ∉ last) :
    (lead directory ++ last).splitAtByte slash =
      (if isAbsolute directory then [[]] else []) ++ (components directory ++ [last]) := by
  have hparts : Text.splitAtByte slash
      ((components directory).flatMap (· ++ [slash]) ++ last) = components directory ++ [last] := by
    rw [Text.splitAtByte_flatMap_append fun _ => slash_not_mem_of_mem_components,
      Text.splitAtByte_of_not_mem hlast]
  rw [lead]
  by_cases habsolute : isAbsolute directory = true
  · rw [if_pos habsolute, if_pos habsolute, List.append_assoc, List.singleton_append,
      Text.splitAtByte, if_pos rfl, hparts]
    rfl
  · rw [if_neg habsolute, if_neg habsolute, List.nil_append, hparts]
    rfl

theorem splitAtByte_join (hdirectory : directory ≠ []) (hname : IsName name) :
    (join directory name).splitAtByte slash =
      (if isAbsolute directory then [[]] else []) ++ (components directory ++ [name]) := by
  rw [join_eq hdirectory hname, splitAtByte_lead_append hname.slash_not_mem]

theorem join_injective {other : Text} (hdirectory : directory ≠ []) (hname : IsName name)
    (hother : IsName other) (h : join directory name = join directory other) : name = other := by
  rw [join_eq hdirectory hname, join_eq hdirectory hother] at h
  exact List.append_cancel_left h

end Join

/-! ## Endings -/

section Endings

variable {name ending : Text}

theorem extension_append (hname : slash ∉ name) (hslash : slash ∉ ending) (hpoint : 0x2E ∉ ending) :
    extension (name ++ 0x2E :: ending) = 0x2E :: ending := by
  have hnone : slash ∉ name ++ 0x2E :: ending := by
    rw [List.mem_append, List.mem_cons]
    exact fun hmem => hmem.elim hname fun h => h.elim (by decide) hslash
  simp only [extension, Text.cutAtLastByte?_of_not_mem hnone,
    Text.cutAtLastByte?_append_cons hpoint]

/-- A path that ends in a name has no slashes at its end. -/
theorem dropSlashes_append (front : Text) {last : Text} (hne : last ≠ []) (hslash : slash ∉ last) :
    dropSlashes (front ++ last) = front ++ last := by
  rw [dropSlashes, List.reverse_append]
  cases hreverse : last.reverse with
  | nil => exact absurd (List.reverse_eq_nil_iff.mp hreverse) hne
  | cons byte rest =>
      have hbyte : byte ≠ slash := by
        rintro rfl
        exact hslash (List.mem_reverse.mp (hreverse ▸ List.mem_cons_self))
      rw [List.cons_append, List.dropWhile_cons_of_neg (by simpa using hbyte), ← List.cons_append,
        ← hreverse, ← List.reverse_append, List.reverse_reverse]

theorem base_eq_self {path : Text} (hne : path ≠ []) (hslash : slash ∉ path) :
    base path = path := by
  have hkept : dropSlashes path = path := dropSlashes_append [] hne hslash
  simp only [base, hkept, Text.cutAtLastByte?_of_not_mem hslash, List.isEmpty_iff, if_neg hne]

/-- The last component of a path, if there is something behind the last slash. -/
theorem base_eq_of_getLast? {path last : Text} (hne : last ≠ [])
    (h : (path.splitAtByte slash).getLast? = some last) : base path = last ∧ slash ∉ last := by
  have hslash : slash ∉ last := Text.not_mem_of_mem_splitAtByte (List.mem_of_getLast? h)
  refine ⟨?_, hslash⟩
  cases hcut : path.cutAtLastByte? slash with
  | none =>
      have hpath := Text.not_mem_of_cutAtLastByte?_eq_none hcut
      rw [Text.splitAtByte_of_not_mem hpath] at h
      cases h
      exact base_eq_self hne hslash
  | some parts =>
      obtain ⟨front, back⟩ := parts
      obtain ⟨rfl, hback⟩ := Text.cutAtLastByte?_eq_some hcut
      rw [Text.splitAtByte_append_cons, Text.splitAtByte_of_not_mem hback,
        List.getLast?_concat] at h
      cases h
      have hkept := dropSlashes_append (front ++ [slash]) hne hslash
      rw [List.append_assoc, List.singleton_append] at hkept
      simp only [base, hkept, hcut, List.isEmpty_iff, List.append_ne_nil_of_right_ne_nil front
        (List.cons_ne_nil slash last), if_false]

theorem clean_ne_nil (path : Text) : clean path ≠ [] := by
  simp only [clean]
  split
  · exact List.cons_ne_nil _ _
  split
  · exact by decide
  · next hbody => simpa using hbody

theorem directory_ne_nil (path : Text) : directory path ≠ [] := by
  unfold directory
  split
  · exact clean_ne_nil _
  · exact by decide

theorem extension_suffix (path : Text) : extension path <:+ path := by
  dsimp only [extension]
  split
  · next front ending hpoint =>
      refine List.IsSuffix.trans ⟨front, (Text.cutAtLastByte?_eq_some hpoint).1.symm⟩ ?_
      split
      · next directory last hslash =>
          rw [(Text.cutAtLastByte?_eq_some hslash).1]
          exact (List.suffix_cons _ _).trans (List.suffix_append _ _)
      · exact List.suffix_rfl
  · exact List.nil_suffix

theorem stem_append (hname : slash ∉ name) (hslash : slash ∉ ending) (hpoint : 0x2E ∉ ending) :
    stem (name ++ 0x2E :: ending) = name := by
  have hnone : slash ∉ name ++ 0x2E :: ending := by
    rw [List.mem_append, List.mem_cons]
    exact fun hmem => hmem.elim hname fun h => h.elim (by decide) hslash
  rw [stem, extension_append hname hslash hpoint,
    base_eq_self (List.append_ne_nil_of_right_ne_nil _ (List.cons_ne_nil _ _)) hnone,
    Text.dropEnding_append]

end Endings

end Path

end Shortfall

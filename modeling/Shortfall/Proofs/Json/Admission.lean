import Shortfall.Json.Schema
import Shortfall.Proofs.Json.Decoding

/-!
# Rules that see what decoders see

Checking a document looks up each member by its exact name and lets the last of several count. A
decoder takes members of a name in any case, and applies each of several. So a checked document can
hold members that no rule has seen and that a decoder applies nevertheless. `Rule.admits` is the
check that looks at all of them, and what a decoder makes of a value that it admits keeps to the
rule.

## Main results

* `admits_of_check`: a checked value is admitted if members are named once and as in the rules.
* `respects_count`, `respects_nonemptyText`, `respects_list`: decoders that keep to their rules.
* `respects_record`, `respects_record_of_required`: a record keeps what its fields keep, and brings
  about what the field of a required member does.
-/

namespace Shortfall.Json

namespace Rule

mutual

/-- Whether a value keeps to a rule in all members that a decoder applies: those of a name in any
case, and each of several. -/
def admits : Rule → Json → Bool
  | list _ item, .array values => values.all fun value => item.admits value
  | record required rules, .object members =>
      (required.all fun name => members.any fun (key, _) => key = name) &&
        admitsMembers rules members
  | rule, value => (rule.check [] value).isEmpty

/-- Whether the members that there is a rule for keep to it. -/
def admitsMembers : List (Text × Rule) → List (Text × Json) → Bool
  | [], _ => true
  | (name, rule) :: rest, members =>
      (members.all fun (key, value) => key.lower ≠ name.lower || rule.admits value) &&
        admitsMembers rest members

end

theorem admitsMembers_iff {rules : List (Text × Rule)} {members : List (Text × Json)} :
    admitsMembers rules members = true ↔
      ∀ entry ∈ rules, ∀ member ∈ members, member.1.lower = entry.1.lower →
        entry.2.admits member.2 = true := by
  induction rules with
  | nil => simp [admitsMembers]
  | cons entry rules ih =>
      obtain ⟨name, rule⟩ := entry
      rw [admitsMembers, Bool.and_eq_true, ih, List.forall_mem_cons, List.all_eq_true]
      simp [imp_iff_not_or]

private theorem admits_list {nullable : Bool} {item : Rule} {value : Json}
    (h : (list nullable item).admits value = true) :
    (∃ values, value = .array values ∧ ∀ value ∈ values, item.admits value = true) ∨
      nullable = true ∧ value = .null := by
  cases value with
  | array values =>
      rw [admits, List.all_eq_true] at h
      exact .inl ⟨values, rfl, h⟩
  | null => cases nullable <;> simp_all [admits, check]
  | _ => simp [admits, check] at h

private theorem admits_record {required : List Text} {rules : List (Text × Rule)} {value : Json}
    (h : (record required rules).admits value = true) :
    ∃ members, value = .object members ∧
      (∀ name ∈ required, ∃ inner, (name, inner) ∈ members) ∧
      ∀ entry ∈ rules, ∀ member ∈ members, member.1.lower = entry.1.lower →
        entry.2.admits member.2 = true := by
  cases value with
  | object members =>
      rw [admits, Bool.and_eq_true, admitsMembers_iff] at h
      refine ⟨members, rfl, ?_, h.2⟩
      simpa using h.1
  | _ => simp [admits, check] at h

private theorem admits_nonemptyText {value : Json} (h : nonemptyText.admits value = true) :
    ∃ string, value = .string string ∧ string ≠ [] := by
  cases value with
  | string string => simpa [admits, check] using h
  | _ => simp [admits, check] at h

private theorem admits_count {value : Json} (h : count.admits value = true) :
    ∃ literal, value = .number literal ∧ isBelowZeroLiteral literal = false := by
  cases value with
  | number literal =>
      refine ⟨literal, rfl, ?_⟩
      cases hbelow : isBelowZeroLiteral literal with
      | false => rfl
      | true => cases hwhole : isWholeLiteral literal <;> simp [admits, check, hbelow, hwhole] at h
  | _ => simp [admits, check] at h

/-! ## Members that are named once -/

mutual

/-- Whether the members that a rule is about have the names that it gives them, each of them
once. -/
def isClear : Rule → Json → Bool
  | list _ item, .array values => values.all fun value => item.isClear value
  | record _ rules, .object members => isClearMembers rules members
  | _, _ => true

def isClearMembers : List (Text × Rule) → List (Text × Json) → Bool
  | [], _ => true
  | (name, rule) :: rest, members =>
      (match members.filter fun (key, _) => key.lower = name.lower with
        | [] => true
        | [(key, value)] => key = name && rule.isClear value
        | _ => false) &&
        isClearMembers rest members

end

private theorem all_of_missing_eq_nil {path required : List Text} {members : List (Text × Json)}
    (h : missing path required members = []) :
    (required.all fun name => members.any fun (key, _) => key = name) = true := by
  simpa [missing, List.filter_eq_nil_iff] using h

/-- A checked record is an object that has what it must have. -/
theorem exists_members_of_check {path required : List Text} {rules : List (Text × Rule)}
    {value : Json} (h : (record required rules).check path value = []) :
    ∃ members, value = .object members ∧ ∀ name ∈ required, ∃ inner, (name, inner) ∈ members := by
  cases value with
  | object members =>
      rw [check, List.append_eq_nil_iff] at h
      exact ⟨members, rfl, by simpa using all_of_missing_eq_nil h.1⟩
  | _ => simp [check] at h

/-- The only member of a name is the one that counts. -/
theorem member?_of_filter_eq {members : List (Text × Json)} {name : Text} {value : Json}
    (h : (members.filter fun (key, _) => key.lower = name.lower) = [(name, value)]) :
    Json.member? name (.object members) = some value := by
  have hmem : ∀ inner, (name, inner) ∈ members ↔ inner = value := by
    intro inner
    have hfilter : (name, inner) ∈ (members.filter fun (key, _) => key.lower = name.lower) ↔
        (name, inner) ∈ members := by simp [List.mem_filter]
    rw [← hfilter, h, List.mem_singleton, Prod.mk.injEq, and_iff_right rfl]
  rw [Json.member?]
  cases hfound : members.reverse.lookup name with
  | none =>
      have hnone := List.lookup_eq_none_iff.mp hfound (name, value)
        (List.mem_reverse.mpr ((hmem value).mpr rfl))
      simp at hnone
  | some inner =>
      obtain ⟨front, back, hsplit, _⟩ := List.lookup_eq_some_iff.mp hfound
      have hinner : (name, inner) ∈ members := by
        rw [← List.mem_reverse, hsplit]
        exact List.mem_append_right _ List.mem_cons_self
      rw [(hmem inner).mp hinner]

mutual

/-- **A checked value without ambiguous members is admitted.** -/
theorem admits_of_check : ∀ (rule : Rule) (path : List Text) (value : Json),
    rule.check path value = [] → rule.isClear value = true → rule.admits value = true
  | text, _, value, hcheck, _ => by
      cases value <;> simp_all [check, admits]
  | nonemptyText, _, value, hcheck, _ => by
      cases value <;> simp_all [check, admits]
  | word words, _, value, hcheck, _ => by
      cases value <;> simp_all [check, admits]
  | count, _, value, hcheck, _ => by
      cases value with
      | number literal =>
          cases hwhole : isWholeLiteral literal <;> cases hbelow : isBelowZeroLiteral literal <;>
            simp_all [check, admits]
      | _ => simp [check] at hcheck
  | list nullable item, path, value, hcheck, hclear => by
      cases value with
      | array values =>
          rw [check, List.flatMap_eq_nil_iff] at hcheck
          rw [isClear, List.all_eq_true] at hclear
          rw [admits, List.all_eq_true]
          intro inner hinner
          have hplaced : ∃ placed ∈ values.zipIdx, placed.1 = inner :=
            List.mem_map.mp (by rwa [List.zipIdx_map_fst])
          obtain ⟨placed, hplaced, rfl⟩ := hplaced
          exact admits_of_check item _ placed.1 (hcheck placed hplaced) (hclear placed.1 hinner)
      | null => cases nullable <;> simp_all [check, admits]
      | _ => simp [check] at hcheck
  | record required rules, path, value, hcheck, hclear => by
      cases value with
      | object members =>
          rw [check, List.append_eq_nil_iff] at hcheck
          rw [isClear] at hclear
          rw [admits, all_of_missing_eq_nil hcheck.1, Bool.true_and]
          exact admitsMembers_of_check rules path members hcheck.2 hclear
      | _ => simp [check] at hcheck

private theorem admitsMembers_of_check : ∀ (rules : List (Text × Rule)) (path : List Text)
    (members : List (Text × Json)), checkMembers path rules (.object members) = [] →
      isClearMembers rules members = true → admitsMembers rules members = true
  | [], _, _, _, _ => rfl
  | (name, rule) :: rest, path, members, hcheck, hclear => by
      rw [checkMembers, List.append_eq_nil_iff] at hcheck
      rw [isClearMembers, Bool.and_eq_true] at hclear
      rw [admitsMembers, admitsMembers_of_check rest path members hcheck.2 hclear.2, Bool.and_true,
        List.all_eq_true]
      intro ⟨key, value⟩ hmember
      rw [Bool.or_eq_true, decide_eq_true_eq, or_iff_not_imp_left, not_not]
      intro hkey
      have hfound : (key, value) ∈ members.filter fun (key, _) => key.lower = name.lower :=
        List.mem_filter.mpr ⟨hmember, by simpa using hkey⟩
      have hfirst := hclear.1
      split at hfirst
      · next hnone => rw [hnone] at hfound; cases hfound
      · next only inner hone =>
          rw [hone, List.mem_singleton] at hfound
          cases hfound
          rw [Bool.and_eq_true, decide_eq_true_eq] at hfirst
          obtain ⟨rfl, hinner⟩ := hfirst
          have hchecked := hcheck.1
          rw [member?_of_filter_eq hone] at hchecked
          exact admits_of_check rule _ value hchecked hinner
      · cases hfirst

end

end Rule

namespace Decoder

variable {α β : Type} {value : Json}

/-! ## Decoders that keep to a rule -/

/-- A decoder that comes to the end of its values and keeps to a rule: it keeps a property over all
values that the rule admits, and brings about a further one. -/
structure Respects (decoder : Decoder α) (rule : Rule) (P Q : α → Prop) : Prop where
  agrees : Agrees decoder
  makes : ∀ {old new : α} {value : Json}, rule.admits value = true → Makes decoder old value new →
    P old → P new ∧ Q new

/-- No property at all. -/
def Anything (_ : α) : Prop := True

theorem respects_of_agrees {decoder : Decoder α} (h : Agrees decoder) (rule : Rule) :
    Respects decoder rule Anything Anything :=
  ⟨h, fun _ _ _ => ⟨trivial, trivial⟩⟩

theorem respects_count : Respects int .count Anything (0 ≤ ·) := by
  refine ⟨agrees_int, ?_⟩
  intro old new value hadmits h _
  refine ⟨trivial, ?_⟩
  obtain ⟨literal, rfl, hliteral⟩ := Rule.admits_count hadmits
  rcases makes_int h with ⟨hnull, _⟩ | ⟨_, heq, hbelow⟩
  · cases hnull
  · cases heq
    by_contra hnegative
    rw [hbelow (Int.not_le.mp hnegative)] at hliteral
    cases hliteral

theorem respects_nonemptyText : Respects Decoder.text .nonemptyText Anything (· ≠ []) := by
  refine ⟨agrees_text, ?_⟩
  intro old new value hadmits h _
  refine ⟨trivial, ?_⟩
  obtain ⟨string, rfl, hstring⟩ := Rule.admits_nonemptyText hadmits
  rcases makes_text h with ⟨hnull, _⟩ | ⟨_, heq, hempty⟩
  · cases hnull
  · cases heq
    exact mt hempty.mp hstring

/-! ## Lists -/

/-- Whether all cells of a list have a property, and its items a further one. -/
def Stocked (P Q : α → Prop) (cells? : Option (Cells α)) : Prop :=
  ∀ cells, cells? = some cells →
    (∀ cell ∈ cells.items ++ cells.beyond, P cell) ∧ ∀ item ∈ cells.items, Q item

section Lists

variable {P Q : α → Prop} {blank : α} {item : Decoder α} {rule : Rule}

private theorem FillsCells.stocked {cells : List α} {values : List Json} {new : Cells α}
    (h : FillsCells blank item cells values new) (hitem : Respects item rule P Q) (hblank : P blank)
    (hadmits : ∀ value ∈ values, rule.admits value = true) (hcells : ∀ cell ∈ cells, P cell) :
    Stocked P Q (some new) := by
  have hfirst : ∀ {cells : List α}, (∀ cell ∈ cells, P cell) → P (cells.headD blank) := by
    intro cells hcells
    cases cells with
    | nil => exact hblank
    | cons cell cells => exact hcells cell List.mem_cons_self
  induction h with
  | last hmakes =>
      rintro _ ⟨⟩
      have hnew := hitem.makes (hadmits _ List.mem_cons_self) hmakes (hfirst hcells)
      have hbeyond := fun cell hcell => hcells cell (List.mem_of_mem_tail hcell)
      exact ⟨List.forall_mem_cons.mpr ⟨hnew.1, hbeyond⟩,
        List.forall_mem_cons.mpr ⟨hnew.2, by simp⟩⟩
  | more hmakes _ ih =>
      rintro _ ⟨⟩
      have hnew := hitem.makes (hadmits _ List.mem_cons_self) hmakes (hfirst hcells)
      have hmore := ih (fun value hvalue => hadmits value (List.mem_cons_of_mem _ hvalue))
        (fun cell hcell => hcells cell (List.mem_of_mem_tail hcell)) _ rfl
      exact ⟨List.forall_mem_cons.mpr ⟨hnew.1, hmore.1⟩, List.forall_mem_cons.mpr ⟨hnew.2, hmore.2⟩⟩

theorem makes_list_eq_none_iff {old new : Option (Cells α)} (hagrees : Agrees item)
    (h : Makes (list blank item) old value new) : new = none ↔ value = .null := by
  rcases makes_list hagrees h with ⟨rfl, rfl⟩ | ⟨rfl, rfl⟩ | ⟨_, _, rfl, rfl, _⟩
  · simp
  · simp
  · simp

theorem respects_list (hitem : Respects item rule P Q) (hblank : P blank) :
    Respects (list blank item) (.list false rule) (Stocked P Q) (· ≠ none) := by
  refine ⟨agrees_list hitem.agrees, ?_⟩
  intro old new value hadmits h hold
  rcases Rule.admits_list hadmits with ⟨values, rfl, hvalues⟩ | ⟨hnull, _⟩
  · refine ⟨?_, fun hnone => by cases (makes_list_eq_none_iff hitem.agrees h).mp hnone⟩
    rcases makes_list hitem.agrees h with ⟨hnull, _⟩ | ⟨_, rfl⟩ | ⟨_, cells, heq, rfl, hfills⟩
    · cases hnull
    · rintro _ ⟨⟩
      simp
    · cases heq
      refine hfills.stocked hitem hblank hvalues ?_
      cases old with
      | none => simp
      | some cells => exact (hold cells rfl).1
  · cases hnull

end Lists

/-! ## Records -/

/-- A field that keeps to the rule of its name. -/
structure Field.Respects (field : Field α) (rules : List (Text × Rule)) (P Q : α → Prop) :
    Prop where
  sound : field.Sound
  makes : ∃ entry ∈ rules, entry.1 = field.name ∧ ∀ {record next : α} {value : Json},
    entry.2.admits value = true → Makes field.decode record value next →
      P record → P next ∧ (Q record → Q next)

theorem Field.respects_of {name : Text} {decoder : Decoder β} {part : α → β} {replace : α → β → α}
    {rules : List (Text × Rule)} {rule : Rule} {P Q : α → Prop} {P' Q' : β → Prop}
    (hname : name.lowerAscii.isSmallWord = true) (hentry : (name, rule) ∈ rules)
    (hdecoder : Decoder.Respects decoder rule P' Q')
    (hpart : ∀ {record}, P record → P' (part record))
    (hreplace : ∀ {record read}, P record → P' read → Q' read →
      P (replace record read) ∧ (Q record → Q (replace record read))) :
    (Field.of name decoder part replace).Respects rules P Q := by
  refine ⟨Field.sound_of hname hdecoder.agrees, (name, rule), hentry, rfl, ?_⟩
  intro record next value hadmits hmakes hrecord
  obtain ⟨read, hread, rfl⟩ := makes_of hmakes
  obtain ⟨hP, hQ⟩ := hdecoder.makes hadmits hread (hpart hrecord)
  exact hreplace hrecord hP hQ

section Records

variable {naming : Naming} {fields : List (Field α)} {required : List Text}
  {rules : List (Text × Rule)} {P Q : α → Prop}

private theorem kept_of_admits (hnaming : naming.Fair)
    (hfields : ∀ field ∈ fields, field.Respects rules P Q) {members : List (Text × Json)}
    (hadmits : ∀ entry ∈ rules, ∀ member ∈ members, member.1.lower = entry.1.lower →
      entry.2.admits member.2 = true) : Kept naming fields members P Q := by
  intro name value field record next hmember hfield hmakes hrecord
  obtain ⟨entry, hentry, hname, hkeep⟩ := (hfields field (List.mem_of_find?_eq_some hfield)).makes
  have hlower : name.lower = entry.1.lower := by
    rw [hname]
    exact hnaming.lower_eq_of_field? (fun field hfield => (hfields field hfield).sound) hfield
  exact hkeep (hadmits entry hentry _ hmember hlower) hmakes hrecord

private theorem applies_of_makes (hnaming : naming.Fair)
    (hfields : ∀ field ∈ fields, field.Respects rules P Q) {old new : α}
    (hadmits : (Rule.record required rules).admits value = true)
    (h : Makes (recordWith naming fields) old value new) :
    ∃ members, Applies naming fields old members new ∧ Kept naming fields members P Q ∧
      (∀ name ∈ required, ∃ inner, (name, inner) ∈ members ∧
        ∀ rule, (name, rule) ∈ rules → rule.admits inner = true) := by
  obtain ⟨members, rfl, hpresent, hmembers⟩ := Rule.admits_record hadmits
  rcases makes_recordWith hnaming (fun field hfield => (hfields field hfield).sound) h with
    ⟨hnull, _⟩ | ⟨_, heq, happlies⟩
  · cases hnull
  · cases heq
    refine ⟨members, happlies, kept_of_admits hnaming hfields hmembers, ?_⟩
    intro name hname
    obtain ⟨inner, hinner⟩ := hpresent name hname
    exact ⟨inner, hinner, fun rule hrule => hmembers (name, rule) hrule _ hinner rfl⟩

/-- A record keeps what its fields keep. -/
theorem respects_record (hnaming : naming.Fair)
    (hfields : ∀ field ∈ fields, field.Respects rules P Anything) :
    Respects (recordWith naming fields) (.record required rules) P Anything := by
  refine ⟨agrees_recordWith hnaming fun field hfield => (hfields field hfield).sound, ?_⟩
  intro old new value hadmits h hold
  obtain ⟨members, happlies, hkept, _⟩ := applies_of_makes hnaming hfields hadmits h
  exact ⟨(happlies.keeps hkept hold).1, trivial⟩

/-- A record brings about what the field of a required member does. -/
theorem respects_record_of_required (hnaming : naming.Fair)
    (hfields : ∀ field ∈ fields, field.Respects rules P Q) {name : Text} {rule : Rule}
    {field : Field α} (hrequired : name ∈ required) (hrule : (name, rule) ∈ rules)
    (hfield : naming.field? fields name = some field)
    (hmakes : ∀ {record next value}, rule.admits value = true →
      Makes field.decode record value next → P record → Q next) :
    Respects (recordWith naming fields) (.record required rules) P Q := by
  refine ⟨agrees_recordWith hnaming fun field hfield => (hfields field hfield).sound, ?_⟩
  intro old new value hadmits h hold
  obtain ⟨members, happlies, hkept, hpresent⟩ := applies_of_makes hnaming hfields hadmits h
  obtain ⟨inner, hinner, hadmitted⟩ := hpresent name hrequired
  exact ⟨(happlies.keeps hkept hold).1,
    happlies.establishes hkept hold hinner hfield (hmakes (hadmitted rule hrule))⟩

end Records

end Decoder

end Shortfall.Json

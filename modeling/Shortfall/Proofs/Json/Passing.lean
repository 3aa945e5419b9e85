import Mathlib.Data.List.Basic
import Shortfall.Json.Passing
import Shortfall.Proofs.Json.Quoted

/-!
# Where values end

A value can be read, or passed over by a reader that does not look at it closely. Both come to the
same end of it. Delimiters see to that in texts, lists and objects. A number has none, and ends for
both where no byte follows that could belong to a number.

Each of the readers works with a fuel of its own, so what is shown of one step of reading a value,
items or members (`Reads`, `items?_eq_some`, `members?_eq_some`) is all that the induction needs.

## Main results

* `rest_eq_of_pass?`: reading and passing over a value come to the same end.
-/

namespace Shortfall.Json

variable {fuel room : Nat} {text rest : Text}

/-! ## What may stand behind a value -/

/-- Whether no number goes on into a text. -/
def EndsNumeral (text : Text) : Prop := ∀ byte ∈ text.head?, isNumeralByte byte = false

theorem not_isNumeralByte_of_isSpace {byte : UInt8} (h : isSpace byte = true) :
    isNumeralByte byte = false := by
  simp only [isSpace, Bool.or_eq_true, decide_eq_true_eq] at h
  rcases h with ((rfl | rfl) | rfl) | rfl <;> decide

private theorem endsNumeral_of_skipSpace {byte : UInt8} (h : skipSpace text = byte :: rest)
    (hbyte : isNumeralByte byte = false) : EndsNumeral text := by
  intro first hfirst
  cases text with
  | nil => cases hfirst
  | cons head tail =>
      cases hfirst
      cases hspace : isSpace first with
      | true => exact not_isNumeralByte_of_isSpace hspace
      | false =>
          rw [skipSpace, List.dropWhile_cons_of_neg (by simp [hspace])] at h
          cases h
          exact hbyte

/-- What stands behind an item or a member: the byte that closes all of them, or a comma with more
of them behind it. -/
inductive Ending (close : UInt8) (behind rest : Text) (last : Prop) (more : Text → Prop) :
    Prop where
  | close (h : skipSpace behind = close :: rest) (hlast : last)
  | comma {after : Text} (h : skipSpace behind = 0x2C :: after) (hmore : more after)

namespace Ending

variable {close : UInt8} {behind rest' : Text} {last last' : Prop} {more more' : Text → Prop}

theorem endsNumeral (h : Ending close behind rest last more)
    (hclose : isNumeralByte close = false) : EndsNumeral behind := by
  cases h with
  | close h _ => exact endsNumeral_of_skipSpace h hclose
  | comma h _ => exact endsNumeral_of_skipSpace h (by decide)

/-- Two readers that stand in the same place come to the same end, or both go on. -/
theorem meet (hclose : close ≠ 0x2C) (h : Ending close behind rest last more)
    (h' : Ending close behind rest' last' more') :
    (rest' = rest ∧ last ∧ last') ∨ ∃ after, more after ∧ more' after := by
  cases h with
  | close h hlast =>
      cases h' with
      | close h' hlast' => exact .inl ⟨(List.cons.inj (h'.symm.trans h)).2, hlast, hlast'⟩
      | comma h' _ => exact absurd (List.cons.inj (h'.symm.trans h)).1.symm hclose
  | comma h hmore =>
      cases h' with
      | close h' _ => exact absurd (List.cons.inj (h'.symm.trans h)).1 hclose
      | comma h' hmore' =>
          obtain rfl := (List.cons.inj (h'.symm.trans h)).2
          exact .inr ⟨_, hmore, hmore'⟩

end Ending

/-! ## One step of reading -/

/-- One step of reading a value that begins at the front of a text. -/
inductive Reads (fuel : Nat) : (room : Nat) → Text → Json → Text → Prop where
  | string {room : Nat} {text string rest : Text} (h : strictText? text = some (string, rest)) :
      Reads fuel room (0x22 :: text) (.string string) rest
  | noItems {room : Nat} {text rest : Text} (h : skipSpace text = 0x5D :: rest) :
      Reads fuel (room + 1) (0x5B :: text) (.array []) rest
  | items {room : Nat} {text rest : Text} {items : List Json}
      (hsome : ∀ rest, skipSpace text ≠ 0x5D :: rest)
      (h : items? fuel room text = some (items, rest)) :
      Reads fuel (room + 1) (0x5B :: text) (.array items) rest
  | noMembers {room : Nat} {text rest : Text} (h : skipSpace text = 0x7D :: rest) :
      Reads fuel (room + 1) (0x7B :: text) (.object []) rest
  | members {room : Nat} {text rest : Text} {members : List (Text × Json)}
      (hsome : ∀ rest, skipSpace text ≠ 0x7D :: rest)
      (h : members? fuel room text = some (members, rest)) :
      Reads fuel (room + 1) (0x7B :: text) (.object members) rest
  | null {room : Nat} {text rest : Text} (h : keyword? "null" (0x6E :: text) = some rest) :
      Reads fuel room (0x6E :: text) .null rest
  | true {room : Nat} {text rest : Text} (h : keyword? "true" (0x74 :: text) = some rest) :
      Reads fuel room (0x74 :: text) (.bool true) rest
  | false {room : Nat} {text rest : Text} (h : keyword? "false" (0x66 :: text) = some rest) :
      Reads fuel room (0x66 :: text) (.bool false) rest
  | number {room : Nat} {byte : UInt8} {text literal rest : Text}
      (hbyte : byte = 0x2D ∨ Text.isDigit byte = true)
      (h : number? (byte :: text) = some (literal, rest)) :
      Reads fuel room (byte :: text) (.number literal) rest

theorem reads_of_value? {value : Json} (h : value? (fuel + 1) room text = some (value, rest)) :
    Reads fuel room (skipSpace text) value rest := by
  rw [value?] at h
  split at h
  · cases h
  · next byte text htext =>
      rw [htext]
      split at h
      · next hbyte =>
          obtain ⟨⟨string, after⟩, hread, h⟩ := Option.map_eq_some_iff.mp h
          cases h
          subst hbyte
          exact .string hread
      split at h
      · next hbyte =>
          subst hbyte
          split at h
          · cases h
          split at h
          · next hempty =>
              cases h
              exact .noItems hempty
          · next hsome =>
              obtain ⟨⟨items, after⟩, hread, h⟩ := Option.map_eq_some_iff.mp h
              cases h
              exact .items hsome hread
      split at h
      · next hbyte =>
          subst hbyte
          split at h
          · cases h
          split at h
          · next hempty =>
              cases h
              exact .noMembers hempty
          · next hsome =>
              obtain ⟨⟨members, after⟩, hread, h⟩ := Option.map_eq_some_iff.mp h
              cases h
              exact .members hsome hread
      split at h
      · next hbyte =>
          subst hbyte
          obtain ⟨after, hread, h⟩ := Option.map_eq_some_iff.mp h
          cases h
          exact .null hread
      split at h
      · next hbyte =>
          subst hbyte
          obtain ⟨after, hread, h⟩ := Option.map_eq_some_iff.mp h
          cases h
          exact .true hread
      split at h
      · next hbyte =>
          subst hbyte
          obtain ⟨after, hread, h⟩ := Option.map_eq_some_iff.mp h
          cases h
          exact .false hread
      split at h
      · next hbyte =>
          obtain ⟨⟨literal, after⟩, hread, h⟩ := Option.map_eq_some_iff.mp h
          cases h
          exact .number (by simpa using hbyte) hread
      · cases h

/-- Items are read one by one, with a comma behind each but the last. -/
theorem items?_eq_some {items : List Json} (h : items? (fuel + 1) room text = some (items, rest)) :
    ∃ item behind, value? fuel room text = some (item, behind) ∧
      Ending 0x5D behind rest (items = [item]) fun after =>
        ∃ more, items? fuel room after = some (more, rest) ∧ items = item :: more := by
  rw [items?] at h
  simp only [Option.bind_eq_bind, Option.bind_eq_some_iff] at h
  obtain ⟨⟨item, behind⟩, hitem, h⟩ := h
  refine ⟨item, behind, hitem, ?_⟩
  split at h
  · next after hcomma =>
      obtain ⟨⟨more, ending⟩, hmore, h⟩ := Option.bind_eq_some_iff.mp h
      cases h
      exact .comma hcomma ⟨more, hmore, rfl⟩
  · next hclose =>
      cases h
      exact .close hclose rfl
  · cases h

/-- Members are read one by one, with a comma behind each but the last. -/
theorem members?_eq_some {members : List (Text × Json)}
    (h : members? (fuel + 1) room text = some (members, rest)) :
    ∃ quoted name behindName colon value behind, skipSpace text = 0x22 :: quoted ∧
      strictText? quoted = some (name, behindName) ∧ skipSpace behindName = 0x3A :: colon ∧
      value? fuel room colon = some (value, behind) ∧
      Ending 0x7D behind rest (members = [(name, value)]) fun after =>
        ∃ more, members? fuel room after = some (more, rest) ∧ members = (name, value) :: more := by
  rw [members?] at h
  split at h
  · next quoted hquoted =>
      simp only [Option.bind_eq_bind, Option.bind_eq_some_iff] at h
      obtain ⟨⟨name, behindName⟩, hname, h⟩ := h
      split at h
      · next colon hcolon =>
          obtain ⟨⟨value, behind⟩, hvalue, h⟩ := Option.bind_eq_some_iff.mp h
          refine ⟨quoted, name, behindName, colon, value, behind, hquoted, hname, hcolon, hvalue,
            ?_⟩
          split at h
          · next after hcomma =>
              obtain ⟨⟨more, ending⟩, hmore, h⟩ := Option.bind_eq_some_iff.mp h
              cases h
              exact .comma hcomma ⟨more, hmore, rfl⟩
          · next hclose =>
              cases h
              exact .close hclose rfl
          · cases h
      · cases h
  · cases h

/-! ## Numbers -/

/-- A text with a front of bytes that numbers are made of. -/
def Spelled (text literal rest : Text) : Prop :=
  text = literal ++ rest ∧ ∀ byte ∈ literal, isNumeralByte byte = true

theorem spelled_front (front : Text) (hfront : front.all isNumeralByte = true) (rest : Text) :
    Spelled (front ++ rest) front rest :=
  ⟨rfl, List.all_eq_true.mp hfront⟩

theorem Spelled.behind {literal : Text} (h : Spelled text literal rest) (front : Text)
    (hfront : front.all isNumeralByte = true) :
    Spelled (front ++ text) (front ++ literal) rest := by
  refine ⟨by rw [h.1, List.append_assoc], ?_⟩
  intro byte hbyte
  exact (List.mem_append.mp hbyte).elim (List.all_eq_true.mp hfront byte) (h.2 byte)

theorem Spelled.append {front middle back : Text} (hfront : Spelled text front middle)
    (hback : Spelled middle back rest) : Spelled text (front ++ back) rest := by
  rw [hfront.1]
  exact hback.behind front (List.all_eq_true.mpr hfront.2)

/-- A number that does not go on ends where the bytes end that numbers are made of. -/
theorem Spelled.rest_eq {literal : Text} (h : Spelled text literal rest)
    (hrest : EndsNumeral rest) : rest = text.dropWhile isNumeralByte := by
  rw [h.1, List.dropWhile_append_of_pos h.2]
  cases rest with
  | nil => rfl
  | cons byte rest => rw [List.dropWhile_cons_of_neg (by simp [hrest byte rfl])]

theorem isNumeralByte_of_isDigit {byte : UInt8} (h : Text.isDigit byte = true) :
    isNumeralByte byte = true := by
  simp [isNumeralByte, h]

theorem digits?_eq_some {digits : Text} (h : digits? text = some (digits, rest)) :
    text = digits ++ rest ∧ digits ≠ [] ∧ ∀ byte ∈ digits, Text.isDigit byte = true := by
  rw [digits?] at h
  split at h
  · cases h
  · next hsome =>
      cases h
      exact ⟨(List.takeWhile_append_dropWhile).symm, hsome, fun byte hbyte =>
        List.mem_takeWhile_imp hbyte⟩

theorem spelled_digits {digits : Text} (h : ∀ byte ∈ digits, Text.isDigit byte = true)
    (rest : Text) : Spelled (digits ++ rest) digits rest :=
  ⟨rfl, fun byte hbyte => isNumeralByte_of_isDigit (h byte hbyte)⟩

theorem spelled_of_digits? {digits : Text} (h : digits? text = some (digits, rest)) :
    Spelled text digits rest := by
  obtain ⟨rfl, _, hdigits⟩ := digits?_eq_some h
  exact spelled_digits hdigits rest

private theorem spelled_of_fraction? {fraction : Text}
    (h : fraction? text = some (fraction, rest)) : Spelled text fraction rest := by
  rw [fraction?.eq_def] at h
  split at h
  · obtain ⟨⟨digits, after⟩, hdigits, h⟩ := Option.map_eq_some_iff.mp h
    cases h
    exact (spelled_of_digits? hdigits).behind [0x2E] (by decide)
  · cases h
    exact spelled_front [] rfl _

private theorem spelled_of_exponent? {exponent : Text}
    (h : exponent? text = some (exponent, rest)) : Spelled text exponent rest := by
  rw [exponent?.eq_def] at h
  split at h
  · cases h
    exact spelled_front [] rfl _
  · next mark behind =>
      split at h
      · next hmark =>
          have hnumeral : isNumeralByte mark = true := by
            simp only [Bool.or_eq_true, decide_eq_true_eq] at hmark
            rcases hmark with rfl | rfl <;> decide
          split at h
          · next sign after =>
              split at h
              · next hsign =>
                  have hsigned : isNumeralByte sign = true := by
                    simp only [Bool.or_eq_true, decide_eq_true_eq] at hsign
                    rcases hsign with rfl | rfl <;> decide
                  obtain ⟨⟨digits, ending⟩, hdigits, h⟩ := Option.map_eq_some_iff.mp h
                  cases h
                  exact (spelled_of_digits? hdigits).behind [mark, sign] (by simp [*])
              · obtain ⟨⟨digits, ending⟩, hdigits, h⟩ := Option.map_eq_some_iff.mp h
                cases h
                exact (spelled_of_digits? hdigits).behind [mark] (by simp [*])
          · cases h
      · cases h
        exact spelled_front [] rfl _

theorem spelled_of_number? {literal : Text} (h : number? text = some (literal, rest)) :
    Spelled text literal rest := by
  unfold number? at h
  split at h
  next sign behindSign hsplit =>
    have hsign : Spelled text sign behindSign := by
      split at hsplit
      · cases hsplit
        exact spelled_front [0x2D] (by decide) _
      · cases hsplit
        exact spelled_front [] rfl _
    have hunsigned : ∃ digits behindDigits fraction behindFraction exponent,
        Spelled behindSign digits behindDigits ∧
          fraction? behindDigits = some (fraction, behindFraction) ∧
          exponent? behindFraction = some (exponent, rest) ∧
          literal = sign ++ digits ++ fraction ++ exponent := by
      simp only [Option.bind_eq_bind] at h
      split at h
      · simp only [Option.bind_some, Option.bind_eq_some_iff] at h
        obtain ⟨⟨fraction, behindFraction⟩, hfraction, ⟨exponent, _⟩, hexponent, h⟩ := h
        cases h
        exact ⟨[0x30], _, fraction, _, exponent, spelled_front [0x30] (by decide) _, hfraction,
          hexponent, rfl⟩
      · simp only [Option.bind_eq_some_iff] at h
        obtain ⟨⟨digits, behindDigits⟩, hdigits, ⟨fraction, behindFraction⟩, hfraction,
          ⟨exponent, _⟩, hexponent, h⟩ := h
        cases h
        exact ⟨digits, _, fraction, _, exponent, spelled_of_digits? hdigits, hfraction, hexponent,
          rfl⟩
    obtain ⟨digits, _, fraction, _, exponent, hdigits, hfraction, hexponent, rfl⟩ := hunsigned
    exact ((hsign.append hdigits).append (spelled_of_fraction? hfraction)).append
      (spelled_of_exponent? hexponent)

/-! ## Passing over values -/

private theorem not_isNumeralByte_of_endsNumber {byte : UInt8} (h : endsNumber byte = true) :
    isNumeralByte byte = false := by
  simp only [endsNumber, Bool.or_eq_true, decide_eq_true_eq] at h
  rcases h with ((rfl | rfl) | rfl) | hspace
  · decide
  · decide
  · decide
  · exact not_isNumeralByte_of_isSpace hspace

private theorem digitRun_eq_ended {pointSeen : Bool} (h : digitRun pointSeen text = .ended rest) :
    rest = text.dropWhile isNumeralByte := by
  fun_induction digitRun pointSeen text with
  | case1 => cases h
  | case2 _ byte text hdigit ih =>
      rw [List.dropWhile_cons_of_pos (isNumeralByte_of_isDigit hdigit)]
      exact ih h
  | case3 => cases h
  | case4 => cases h
  | case5 next more hdigit _ ih =>
      rw [List.dropWhile_cons_of_pos (by decide)]
      exact ih h
  | case6 => cases h
  | case7 _ byte text _ _ hends =>
      cases h
      rw [List.dropWhile_cons_of_neg (by simp [not_isNumeralByte_of_endsNumber hends])]
  | case8 => cases h

private theorem passNumeral?_eq_some {fits : Text → Bool} (h : passNumeral? fits text = some rest) :
    rest = text.dropWhile isNumeralByte := by
  rw [passNumeral?] at h
  split at h
  · cases h
    rfl
  · cases h

private theorem passZero?_eq_some (h : passZero? text = some rest) :
    rest = text.dropWhile isNumeralByte := by
  rw [passZero?] at h
  split at h
  · cases h
  · exact passNumeral?_eq_some h

private theorem passNumber?_eq_some {first : UInt8} (hfirst : isNumeralByte first = true)
    (h : passNumber? first text = some rest) :
    rest = (first :: text).dropWhile isNumeralByte := by
  have hdrop : (first :: text).dropWhile isNumeralByte = text.dropWhile isNumeralByte :=
    List.dropWhile_cons_of_pos hfirst
  rw [passNumber?] at h
  split at h
  · next hended =>
      cases h
      split at hended
      · cases hended
      · rw [hdrop]
        exact digitRun_eq_ended hended
  · cases h
  · have hrest := passNumeral?_eq_some h
    split at hrest
    · rw [hdrop]
      exact hrest
    · exact hrest

private theorem pass?_number {byte : UInt8} {behind : Text}
    (hbyte : byte = 0x2D ∨ Text.isDigit byte = true) (htext : skipSpace text = byte :: behind)
    (h : pass? (fuel + 1) room text = some rest) :
    rest = (byte :: behind).dropWhile isNumeralByte := by
  have hother : byte ∉ [0x22, 0x5B, 0x7B, 0x6E, 0x74, 0x66] := by
    rcases hbyte with rfl | hdigit
    · decide
    · intro hmem
      simp only [List.mem_cons, List.not_mem_nil, or_false] at hmem
      rcases hmem with rfl | rfl | rfl | rfl | rfl | rfl <;> cases hdigit
  simp only [List.mem_cons, List.not_mem_nil, or_false, not_or] at hother
  rw [pass?, htext] at h
  simp only [hother, if_false] at h
  split at h
  · exact passZero?_eq_some h
  · rw [if_pos (by simpa using hbyte)] at h
    have hnumeral : isNumeralByte byte = true :=
      hbyte.elim (fun heq => heq ▸ by decide) isNumeralByte_of_isDigit
    exact passNumber?_eq_some hnumeral h

private theorem pass?_array {behind : Text} (htext : skipSpace text = 0x5B :: behind)
    (h : pass? (fuel + 1) room text = some rest) :
    skipSpace behind = 0x5D :: rest ∨
      (∀ after, skipSpace behind ≠ 0x5D :: after) ∧
        ∃ room, passItems? fuel room behind = some rest := by
  cases room with
  | zero => simp [pass?, htext] at h
  | succ room =>
      rw [pass?, htext] at h
      dsimp only at h
      rw [if_neg (by decide), if_pos rfl] at h
      split at h
      · next hclose =>
          cases h
          exact .inl hclose
      · next hsome => exact .inr ⟨hsome, room, h⟩

private theorem pass?_object {behind : Text} (htext : skipSpace text = 0x7B :: behind)
    (h : pass? (fuel + 1) room text = some rest) :
    skipSpace behind = 0x7D :: rest ∨
      (∀ after, skipSpace behind ≠ 0x7D :: after) ∧
        ∃ room, passMembers? fuel room behind = some rest := by
  cases room with
  | zero => simp [pass?, htext] at h
  | succ room =>
      rw [pass?, htext] at h
      dsimp only at h
      rw [if_neg (by decide), if_neg (by decide), if_pos rfl] at h
      split at h
      · next hclose =>
          cases h
          exact .inl hclose
      · next hsome => exact .inr ⟨by simp [hsome], room, h⟩
      · cases h

private theorem passItems?_eq_some (h : passItems? (fuel + 1) room text = some rest) :
    ∃ behind, pass? fuel room text = some behind ∧
      Ending 0x5D behind rest True fun after => passItems? fuel room after = some rest := by
  rw [passItems?] at h
  simp only [Option.bind_eq_bind, Option.bind_eq_some_iff] at h
  obtain ⟨behind, hpass, h⟩ := h
  refine ⟨behind, hpass, ?_⟩
  split at h
  · next after hcomma => exact .comma hcomma h
  · next hclose =>
      cases h
      exact .close hclose trivial
  · cases h

private theorem passMembers?_eq_some (h : passMembers? (fuel + 1) room text = some rest) :
    ∃ name behindName colon behind, textOrNull? text = some (name, behindName) ∧
      skipSpace behindName = 0x3A :: colon ∧ pass? fuel room colon = some behind ∧
      Ending 0x7D behind rest True fun after => passMembers? fuel room after = some rest := by
  rw [passMembers?] at h
  simp only [Option.bind_eq_bind, Option.bind_eq_some_iff] at h
  obtain ⟨⟨name, behindName⟩, hname, h⟩ := h
  split at h
  · next colon hcolon =>
      obtain ⟨behind, hpass, h⟩ := Option.bind_eq_some_iff.mp h
      refine ⟨name, behindName, colon, behind, hname, hcolon, hpass, ?_⟩
      split at h
      · next after hcomma => exact .comma hcomma h
      · next hclose =>
          cases h
          exact .close hclose trivial
      · cases h
  · cases h

theorem textOrNull?_quoted {quoted : Text} (htext : skipSpace text = 0x22 :: quoted) :
    textOrNull? text = lenientText? false quoted := by
  simp only [textOrNull?, htext]

section Agreement

variable {fuel' room' : Nat} {rest' : Text}

/-- What the readers of values, items and members agree on for a fuel. -/
structure PassesAlike (fuel : Nat) : Prop where
  value : ∀ {fuel' room room' : Nat} {text rest rest' : Text} {value : Json},
    value? fuel room text = some (value, rest) → EndsNumeral rest →
      pass? fuel' room' text = some rest' → rest' = rest
  items : ∀ {fuel' room room' : Nat} {text rest rest' : Text} {items : List Json},
    items? fuel room text = some (items, rest) →
      passItems? fuel' room' text = some rest' → rest' = rest
  members : ∀ {fuel' room room' : Nat} {text rest rest' : Text} {members : List (Text × Json)},
    members? fuel room text = some (members, rest) →
      passMembers? fuel' room' text = some rest' → rest' = rest

private theorem PassesAlike.value_succ (ih : PassesAlike fuel) {value : Json}
    (hvalue : value? (fuel + 1) room text = some (value, rest)) (hrest : EndsNumeral rest)
    (hpass : pass? fuel' room' text = some rest') : rest' = rest := by
  cases fuel' with
  | zero => cases hpass
  | succ fuel' =>
      have hreads := reads_of_value? hvalue
      generalize htext : skipSpace text = front at hreads
      cases hreads with
      | string h =>
          simp only [pass?, htext, if_true] at hpass
          obtain ⟨⟨lenient, after⟩, hlenient, hpass⟩ := Option.map_eq_some_iff.mp hpass
          cases hpass
          exact strictText?_lenientText?_rest h hlenient
      | noItems h =>
          rcases pass?_array htext hpass with hclose | ⟨hsome, _⟩
          · exact (List.cons.inj (hclose.symm.trans h)).2
          · exact (hsome _ h).elim
      | items hsome h =>
          rcases pass?_array htext hpass with hclose | ⟨_, _, hitems⟩
          · exact (hsome _ hclose).elim
          · exact ih.items h hitems
      | noMembers h =>
          rcases pass?_object htext hpass with hclose | ⟨hsome, _⟩
          · exact (List.cons.inj (hclose.symm.trans h)).2
          · exact (hsome _ h).elim
      | members hsome h =>
          rcases pass?_object htext hpass with hclose | ⟨_, _, hmembers⟩
          · exact (hsome _ hclose).elim
          · exact ih.members h hmembers
      | null h =>
          simp [pass?, htext, h] at hpass
          exact hpass.symm
      | true h =>
          simp [pass?, htext, h] at hpass
          exact hpass.symm
      | false h =>
          simp [pass?, htext, h] at hpass
          exact hpass.symm
      | number hbyte h =>
          rw [pass?_number hbyte htext hpass, (spelled_of_number? h).rest_eq hrest]

private theorem PassesAlike.items_succ (ih : PassesAlike fuel) {items : List Json}
    (hitems : items? (fuel + 1) room text = some (items, rest))
    (hpass : passItems? fuel' room' text = some rest') : rest' = rest := by
  cases fuel' with
  | zero => cases hpass
  | succ fuel' =>
      obtain ⟨item, behind, hitem, hend⟩ := items?_eq_some hitems
      obtain ⟨behind', hpassed, hend'⟩ := passItems?_eq_some hpass
      obtain rfl : behind' = behind := ih.value hitem (hend.endsNumeral (by decide)) hpassed
      rcases hend.meet (by decide) hend' with ⟨hrest, _⟩ | ⟨_, ⟨_, hmore, _⟩, hmore'⟩
      · exact hrest
      · exact ih.items hmore hmore'

private theorem PassesAlike.members_succ (ih : PassesAlike fuel) {members : List (Text × Json)}
    (hmembers : members? (fuel + 1) room text = some (members, rest))
    (hpass : passMembers? fuel' room' text = some rest') : rest' = rest := by
  cases fuel' with
  | zero => cases hpass
  | succ fuel' =>
      obtain ⟨quoted, name, behindName, colon, value, behind, hquoted, hname, hcolon, hvalue,
        hend⟩ := members?_eq_some hmembers
      obtain ⟨name', behindName', colon', behind', hname', hcolon', hpassed, hend'⟩ :=
        passMembers?_eq_some hpass
      rw [textOrNull?_quoted hquoted] at hname'
      obtain rfl : behindName' = behindName := strictText?_lenientText?_rest hname hname'
      obtain rfl : colon' = colon := (List.cons.inj (hcolon'.symm.trans hcolon)).2
      obtain rfl : behind' = behind := ih.value hvalue (hend.endsNumeral (by decide)) hpassed
      rcases hend.meet (by decide) hend' with ⟨hrest, _⟩ | ⟨_, ⟨_, hmore, _⟩, hmore'⟩
      · exact hrest
      · exact ih.members hmore hmore'

private theorem passesAlike (fuel : Nat) : PassesAlike fuel := by
  induction fuel with
  | zero =>
      constructor
      · intro _ _ _ _ _ _ _ hvalue
        cases hvalue
      · intro _ _ _ _ _ _ _ hitems
        cases hitems
      · intro _ _ _ _ _ _ _ hmembers
        cases hmembers
  | succ fuel ih => exact ⟨ih.value_succ, ih.items_succ, ih.members_succ⟩

/-- **Reading and passing over a value come to the same end**, unless it is a number that goes
on. -/
theorem rest_eq_of_pass? {value : Json} (hvalue : value? fuel room text = some (value, rest))
    (hrest : EndsNumeral rest) (hpass : pass? fuel' room' text = some rest') : rest' = rest :=
  (passesAlike fuel).value hvalue hrest hpass

end Agreement

end Shortfall.Json

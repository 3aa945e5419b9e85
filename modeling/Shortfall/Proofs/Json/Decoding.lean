import Shortfall.Json.Decoding
import Shortfall.Json.Quantity
import Shortfall.Proofs.Json.Passing
import Shortfall.Proofs.Text.SmallWords

/-!
# What decoders make of values

A decoder reads its text on its own, beside the reader that gives the value of it. Both come to the
same end (`Agrees`), so what a decoder does can be told by values instead of texts: `Makes decoder
old value new` says that the decoder can make `new` out of `value` over `old`. What a list or a
record makes of its value is told by what their parts make of the items or members: items go over
the cells one after another (`FillsCells`), members over one and the same record (`Applies`).

## Main results

* `makes_text`, `makes_int`, `makes_list`, `makes_recordWith`: what the decoders make of a value.
-/

namespace Shortfall.Json

variable {fuel room depth : Nat} {text rest rest' : Text} {value : Json}

/-! ## Nothing -/

private theorem keyword?_null_eq_some (h : keyword? "null" text = some rest) :
    text = 0x6E :: 0x75 :: 0x6C :: 0x6C :: rest := by
  rw [keyword?] at h
  split at h
  · next hstarts =>
      cases h
      obtain ⟨tail, rfl⟩ := List.isPrefixOf_iff_prefix.mp hstarts
      rw [List.drop_left]
      rfl
  · cases h

/-- Where nothing stands, nothing is read. -/
theorem value?_of_null (hvalue : value? fuel depth text = some (value, rest))
    (hnull : keyword? "null" (skipSpace text) = some rest') : value = .null ∧ rest' = rest := by
  cases fuel with
  | zero => cases hvalue
  | succ fuel =>
      have hreads := reads_of_value? hvalue
      have htext := keyword?_null_eq_some hnull
      rw [htext] at hreads hnull
      cases hreads with
      | null h => exact ⟨rfl, Option.some.inj (hnull.symm.trans h)⟩
      | number hbyte h => rcases hbyte with hbyte | hbyte <;> cases hbyte

namespace Decoder

variable {α β : Type}

/-- A decoder that comes to the end of the value that it reads. -/
def Agrees (decoder : Decoder α) : Prop :=
  ∀ {fuel depth room : Nat} {old new : α} {text rest rest' : Text} {value : Json},
    value? fuel depth text = some (value, rest) → EndsNumeral rest →
      decoder room old text = some (new, rest') → EndsNumeral rest' → rest' = rest

/-- What a decoder can make of a value over an old one. -/
def Makes (decoder : Decoder α) (old : α) (value : Json) (new : α) : Prop :=
  ∃ fuel depth room text rest, value? fuel depth text = some (value, rest) ∧
    decoder room old text = some (new, rest)

/-! ## Texts -/

theorem textOrNull?_cases {new : Text} (hvalue : value? fuel depth text = some (value, rest))
    (h : textOrNull? text = some (new, rest')) :
    rest' = rest ∧ ((value = .null ∧ new = []) ∨
      ∃ string, value = .string string ∧ (new = [] ↔ string = [])) := by
  rw [textOrNull?] at h
  split at h
  · next quoted hquoted =>
      cases fuel with
      | zero => cases hvalue
      | succ fuel =>
          have hreads := reads_of_value? hvalue
          rw [hquoted] at hreads
          cases hreads with
          | string hstrict =>
              exact ⟨strictText?_lenientText?_rest hstrict h,
                .inr ⟨_, rfl, eq_nil_iff_of_styles hstrict h⟩⟩
          | number hbyte _ => rcases hbyte with hbyte | hbyte <;> cases hbyte
  · obtain ⟨after, hnull, h⟩ := Option.map_eq_some_iff.mp h
    cases h
    obtain ⟨rfl, rfl⟩ := value?_of_null hvalue hnull
    exact ⟨rfl, .inl ⟨rfl, rfl⟩⟩

theorem agrees_text : Agrees Decoder.text := by
  intro _ _ _ _ _ _ _ _ _ hvalue _ h _
  exact (textOrNull?_cases hvalue h).1

theorem makes_text {old new : Text} (h : Makes Decoder.text old value new) :
    (value = .null ∧ new = []) ∨ ∃ string, value = .string string ∧ (new = [] ↔ string = []) := by
  obtain ⟨_, _, _, _, _, hvalue, hread⟩ := h
  exact (textOrNull?_cases hvalue hread).2

theorem agrees_word (parse? : Text → Option α) : Agrees (word parse?) := by
  intro _ _ _ _ _ _ _ _ _ hvalue _ h _
  simp only [word, Option.bind_eq_bind, Option.bind_eq_some_iff] at h
  obtain ⟨⟨name, after⟩, hread, parsed, _, h⟩ := h
  cases h
  exact (textOrNull?_cases hvalue hread).1

/-! ## Whole numbers -/

private theorem magnitude?_eq_some {magnitude : Nat}
    (h : magnitude? text = some (magnitude, rest)) :
    ∃ digits, text = digits ++ rest ∧ digits ≠ [] ∧ (∀ byte ∈ digits, Text.isDigit byte = true) ∧
      addDigits? 0 digits = some magnitude := by
  simp only [magnitude?, Option.bind_eq_bind] at h
  split at h
  · simp only [Option.bind_some] at h
    split at h
    · cases h
    · obtain ⟨found, hfound, h⟩ := Option.bind_eq_some_iff.mp h
      cases h
      exact ⟨[0x30], rfl, by simp, List.all_eq_true.mp (by decide), hfound⟩
  · obtain ⟨⟨digits, after⟩, hdigits, h⟩ := Option.bind_eq_some_iff.mp h
    split at h
    · cases h
    · obtain ⟨found, hfound, h⟩ := Option.bind_eq_some_iff.mp h
      cases h
      obtain ⟨htext, hsome, hall⟩ := digits?_eq_some hdigits
      exact ⟨digits, htext, hsome, hall, hfound⟩

/-- A whole number is a sign and digits, unless nothing stands there. -/
theorem int_eq_some {old new : Int} (h : int room old text = some (new, rest)) :
    (keyword? "null" (skipSpace text) = some rest ∧ new = old) ∨
      ∃ sign digits magnitude, skipSpace text = sign ++ digits ++ rest ∧ digits ≠ [] ∧
        (∀ byte ∈ digits, Text.isDigit byte = true) ∧ addDigits? 0 digits = some magnitude ∧
        ((sign = [0x2D] ∧ new = -(magnitude : Int)) ∨ (sign = [] ∧ new = magnitude)) := by
  rw [int] at h
  split at h
  · next htext =>
      obtain ⟨after, hnull, h⟩ := Option.map_eq_some_iff.mp h
      cases h
      rw [htext]
      exact .inl ⟨hnull, rfl⟩
  · next htext =>
      simp only [Option.bind_eq_bind, Option.bind_eq_some_iff] at h
      obtain ⟨⟨magnitude, after⟩, hmagnitude, h⟩ := h
      split at h
      · cases h
        obtain ⟨digits, rfl, hsome, hall, hfound⟩ := magnitude?_eq_some hmagnitude
        exact .inr ⟨[0x2D], digits, magnitude, htext, hsome, hall, hfound, .inl ⟨rfl, rfl⟩⟩
      · cases h
  · simp only [Option.bind_eq_bind, Option.bind_eq_some_iff] at h
    obtain ⟨⟨magnitude, after⟩, hmagnitude, h⟩ := h
    split at h
    · cases h
      obtain ⟨digits, htext, hsome, hall, hfound⟩ := magnitude?_eq_some hmagnitude
      exact .inr ⟨[], digits, magnitude, htext, hsome, hall, hfound, .inr ⟨rfl, rfl⟩⟩
    · cases h

private theorem reads_number {byte : UInt8} (hbyte : byte = 0x2D ∨ Text.isDigit byte = true)
    (h : Reads fuel depth (byte :: text) value rest) :
    ∃ literal, value = .number literal ∧ number? (byte :: text) = some (literal, rest) := by
  cases h with
  | number _ h => exact ⟨_, rfl, h⟩
  | _ => rcases hbyte with hbyte | hbyte <;> cases hbyte

/-- Where a sign or a digit stands, a number is read. -/
theorem value?_of_digits {sign digits : Text} (hvalue : value? fuel depth text = some (value, rest))
    (htext : skipSpace text = sign ++ digits ++ rest') (hsign : sign = [0x2D] ∨ sign = [])
    (hsome : digits ≠ []) (hall : ∀ byte ∈ digits, Text.isDigit byte = true) :
    ∃ literal, value = .number literal ∧ Spelled (skipSpace text) literal rest := by
  cases fuel with
  | zero => cases hvalue
  | succ fuel =>
      have hreads := reads_of_value? hvalue
      obtain ⟨byte, tail, hfront, hbyte⟩ : ∃ byte tail, skipSpace text = byte :: tail ∧
          (byte = 0x2D ∨ Text.isDigit byte = true) := by
        obtain ⟨digit, more, rfl⟩ := List.exists_cons_of_ne_nil hsome
        rcases hsign with rfl | rfl
        · exact ⟨0x2D, _, htext, .inl rfl⟩
        · exact ⟨digit, _, htext, .inr (hall digit List.mem_cons_self)⟩
      rw [hfront] at hreads ⊢
      obtain ⟨literal, rfl, hnumber⟩ := reads_number hbyte hreads
      exact ⟨literal, rfl, spelled_of_number? hnumber⟩

theorem agrees_int : Agrees int := by
  intro _ _ _ _ _ text _ rest' _ hvalue hrest h hrest'
  rcases int_eq_some h with ⟨hnull, _⟩ | ⟨sign, digits, _, htext, hsome, hall, _, hsign⟩
  · exact (value?_of_null hvalue hnull).2
  · have hsigns : sign = [0x2D] ∨ sign = [] := hsign.imp And.left And.left
    obtain ⟨literal, rfl, hspelled⟩ := value?_of_digits hvalue htext hsigns hsome hall
    have hdecoded : Spelled (skipSpace text) (sign ++ digits) rest' := by
      rw [htext, List.append_assoc]
      exact (spelled_digits hall rest').behind sign (by rcases hsigns with rfl | rfl <;> decide)
    rw [hdecoded.rest_eq hrest', hspelled.rest_eq hrest]

/-- The value of decimal digits behind what was read so far. -/
def digitsValueFrom (start : Nat) (digits : Text) : Nat :=
  digits.foldl (fun value digit => value * 10 + (digit.toNat - 0x30)) start

theorem le_digitsValueFrom (start : Nat) (digits : Text) :
    start ≤ digitsValueFrom start digits := by
  induction digits generalizing start with
  | nil => exact le_rfl
  | cons digit digits ih =>
      calc start ≤ start * 10 + (digit.toNat - 0x30) := by omega
        _ ≤ digitsValueFrom start (digit :: digits) := ih _

/-- Digits that are worth nothing are zeros, and have no magnitude. -/
theorem addDigits?_of_digitsValueFrom_eq_zero {digits : Text}
    (hall : ∀ byte ∈ digits, Text.isDigit byte = true) (h : digitsValueFrom 0 digits = 0) :
    addDigits? 0 digits = some 0 := by
  induction digits with
  | nil => rfl
  | cons digit digits ih =>
      have hfirst : digit.toNat - 0x30 = 0 := by
        have hle := le_digitsValueFrom (0 * 10 + (digit.toNat - 0x30)) digits
        have hzero : digitsValueFrom (0 * 10 + (digit.toNat - 0x30)) digits = 0 := h
        omega
      have hdigit := hall digit List.mem_cons_self
      simp only [Text.isDigit, Bool.and_eq_true, decide_eq_true_eq, UInt8.le_iff_toNat_le] at hdigit
      obtain rfl : digit = 0x30 := by
        rw [← UInt8.toNat_inj]
        exact le_antisymm (by simpa using Nat.le_of_sub_eq_zero hfirst) hdigit.1
      exact ih (fun byte hbyte => hall byte (List.mem_cons_of_mem _ hbyte)) h

private theorem isBelowZeroLiteral_minus {digits : Text} {magnitude : Nat} (hsome : digits ≠ [])
    (hall : ∀ byte ∈ digits, Text.isDigit byte = true)
    (hmagnitude : addDigits? 0 digits = some magnitude) (hpos : 0 < magnitude) :
    isBelowZeroLiteral (0x2D :: digits) = true := by
  have hvalue : Text.digitsValue? digits = some (digitsValueFrom 0 digits) :=
    Text.digitsValue?_of_ne_nil hsome hall
  have hne : digitsValueFrom 0 digits ≠ 0 := by
    intro hzero
    have hnone := addDigits?_of_digitsValueFrom_eq_zero hall hzero
    rw [hnone] at hmagnitude
    cases hmagnitude
    exact absurd hpos (lt_irrefl 0)
  have hplain : ∀ byte ∈ digits, byte ≠ 0x65 ∧ byte ≠ 0x45 ∧ byte ≠ 0x2E := by
    intro byte hbyte
    have hdigit := hall byte hbyte
    refine ⟨?_, ?_, ?_⟩ <;> rintro rfl <;> cases hdigit
  have hmark : ∀ byte ∈ digits, (!(decide (byte = 0x65) || decide (byte = 0x45))) = true := by
    intro byte hbyte
    simp [hplain byte hbyte]
  have hpoint : ∀ byte ∈ digits, decide (byte ≠ 0x2E) = true := by
    intro byte hbyte
    simp [hplain byte hbyte]
  simp only [isBelowZeroLiteral, Quantity.ofLiteral?, List.takeWhile_eq_self_iff.mpr hmark,
    List.dropWhile_eq_nil_iff.mpr hmark, List.takeWhile_eq_self_iff.mpr hpoint,
    List.dropWhile_eq_nil_iff.mpr hpoint, List.drop_nil, List.append_nil, hvalue,
    Option.bind_eq_bind, Option.bind_some, Option.any_some, Quantity.isBelowZero]
  simpa using hne

theorem makes_int {old new : Int} (h : Makes int old value new) :
    (value = .null ∧ new = old) ∨
      ∃ literal, value = .number literal ∧ (new < 0 → isBelowZeroLiteral literal = true) := by
  obtain ⟨_, _, _, text, rest, hvalue, hread⟩ := h
  rcases int_eq_some hread with
    ⟨hnull, hold⟩ | ⟨sign, digits, magnitude, htext, hsome, hall, hmagnitude, hsign⟩
  · exact .inl ⟨(value?_of_null hvalue hnull).1, hold⟩
  · right
    obtain ⟨literal, rfl, hspelled⟩ :=
      value?_of_digits hvalue htext (hsign.imp And.left And.left) hsome hall
    obtain rfl : literal = sign ++ digits :=
      List.append_cancel_right (hspelled.1.symm.trans htext)
    refine ⟨_, rfl, ?_⟩
    intro hnegative
    rcases hsign with ⟨rfl, rfl⟩ | ⟨rfl, rfl⟩
    · exact isBelowZeroLiteral_minus hsome hall hmagnitude (by omega)
    · omega

/-! ## Lists -/

/-- Items that go over cells one after another, at least one of them. -/
inductive FillsCells (blank : α) (item : Decoder α) : List α → List Json → Cells α → Prop where
  | last {cells : List α} {value : Json} {new : α}
      (h : Makes item (cells.headD blank) value new) :
      FillsCells blank item cells [value] { items := [new], beyond := cells.tail }
  | more {cells : List α} {value : Json} {values : List Json} {new : α} {more : Cells α}
      (h : Makes item (cells.headD blank) value new)
      (hmore : FillsCells blank item cells.tail values more) :
      FillsCells blank item cells (value :: values) { more with items := new :: more.items }

private theorem overCells_eq_some {blank : α} {item : Decoder α} {cells : List α} {new : Cells α}
    (h : overCells blank item room (fuel + 1) cells text = some (new, rest)) :
    ∃ read behind, item room (cells.headD blank) text = some (read, behind) ∧
      Ending 0x5D behind rest (new = { items := [read], beyond := cells.tail }) fun after =>
        ∃ more, overCells blank item room fuel cells.tail after = some (more, rest) ∧
          new = { more with items := read :: more.items } := by
  rw [overCells] at h
  simp only [Option.bind_eq_bind, Option.bind_eq_some_iff] at h
  obtain ⟨⟨read, behind⟩, hread, h⟩ := h
  refine ⟨read, behind, hread, ?_⟩
  split at h
  · next after hcomma =>
      obtain ⟨⟨more, ending⟩, hmore, h⟩ := Option.bind_eq_some_iff.mp h
      cases h
      exact .comma hcomma ⟨more, hmore, rfl⟩
  · next hclose =>
      cases h
      exact .close hclose rfl
  · cases h

private theorem overCells_cases {blank : α} {item : Decoder α} (hitem : Agrees item) {fuel' : Nat}
    {cells : List α} {values : List Json} {new : Cells α}
    (hvalues : Json.items? fuel depth text = some (values, rest))
    (h : overCells blank item room fuel' cells text = some (new, rest')) :
    rest' = rest ∧ FillsCells blank item cells values new := by
  induction fuel' generalizing fuel cells text values new with
  | zero => cases h
  | succ fuel' ih =>
      cases fuel with
      | zero => cases hvalues
      | succ fuel =>
          obtain ⟨value, behind, hvalue, hend⟩ := items?_eq_some hvalues
          obtain ⟨read, behind', hread, hend'⟩ := overCells_eq_some h
          obtain rfl : behind' = behind :=
            hitem hvalue (hend.endsNumeral (by decide)) hread (hend'.endsNumeral (by decide))
          have hmakes : Makes item (cells.headD blank) value read :=
            ⟨_, _, _, _, _, hvalue, hread⟩
          rcases hend.meet (by decide) hend' with
            ⟨hrest, rfl, rfl⟩ | ⟨_, ⟨more, hmore, rfl⟩, more', hmore', rfl⟩
          · exact ⟨hrest, .last hmakes⟩
          · obtain ⟨hrest, hfills⟩ := ih hmore hmore'
            exact ⟨hrest, .more hmakes hfills⟩

/-- What a list makes of a value, and where it ends. -/
theorem list_cases {blank : α} {item : Decoder α} (hitem : Agrees item)
    {old new : Option (Cells α)} (hvalue : value? fuel depth text = some (value, rest))
    (h : list blank item room old text = some (new, rest')) :
    rest' = rest ∧ ((value = .null ∧ new = none) ∨ (value = .array [] ∧ new = some {}) ∨
      ∃ values cells, value = .array values ∧ new = some cells ∧
        FillsCells blank item ((old.map fun cells => cells.items ++ cells.beyond).getD []) values
          cells) := by
  rw [list] at h
  split at h
  · next behind htext =>
      cases fuel with
      | zero => cases hvalue
      | succ fuel =>
          have hreads := reads_of_value? hvalue
          rw [htext] at hreads
          cases hreads with
          | noItems hclose =>
              rw [hclose] at h
              cases h
              exact ⟨rfl, .inr (.inl ⟨rfl, rfl⟩)⟩
          | items hsome hvalues =>
              split at h
              · next hclose => exact (hsome _ hclose).elim
              · obtain ⟨⟨cells, after⟩, hcells, h⟩ := Option.map_eq_some_iff.mp h
                cases h
                obtain ⟨hrest, hfills⟩ := overCells_cases hitem hvalues hcells
                exact ⟨hrest, .inr (.inr ⟨_, cells, rfl, rfl, hfills⟩)⟩
          | number hbyte _ => rcases hbyte with hbyte | hbyte <;> cases hbyte
  · obtain ⟨after, hnull, h⟩ := Option.map_eq_some_iff.mp h
    cases h
    obtain ⟨rfl, rfl⟩ := value?_of_null hvalue hnull
    exact ⟨rfl, .inl ⟨rfl, rfl⟩⟩

theorem agrees_list {blank : α} {item : Decoder α} (hitem : Agrees item) :
    Agrees (list blank item) := by
  intro _ _ _ _ _ _ _ _ _ hvalue _ h _
  exact (list_cases hitem hvalue h).1

theorem makes_list {blank : α} {item : Decoder α} (hitem : Agrees item)
    {old new : Option (Cells α)} (h : Makes (list blank item) old value new) :
    (value = .null ∧ new = none) ∨ (value = .array [] ∧ new = some {}) ∨
      ∃ values cells, value = .array values ∧ new = some cells ∧
        FillsCells blank item ((old.map fun cells => cells.items ++ cells.beyond).getD []) values
          cells := by
  obtain ⟨_, _, _, _, _, hvalue, hread⟩ := h
  exact (list_cases hitem hvalue hread).2

/-! ## Records -/

/-- A way of naming members that knows the same names in what the two styles read. -/
structure Naming.Fair (naming : Naming) : Prop where
  read : ∀ {text quoted name rest : Text}, skipSpace text = 0x22 :: quoted →
    naming.read text = some (name, rest) →
      ∃ controls, lenientText? controls quoted = some (name, rest)
  fold : ∀ {word bytes name : Text}, word.isSmallWord = true → SameOrReplaced bytes name →
    (naming.fold name = word ↔ naming.fold bytes.mend = word)
  lower : ∀ {word name : Text}, word.isSmallWord = true → naming.fold name = word →
    name.lower = word

theorem fair_general : Naming.general.Fair where
  read hquoted hread := ⟨false, (textOrNull?_quoted hquoted).symm.trans hread⟩
  fold := by
    intro word bytes name hword hsame
    show name.lower = word ↔ bytes.mend.lower = word
    rw [Text.lower_mend]
    rcases hsame with rfl | ⟨hbytes, hname⟩
    · rfl
    · exact iff_of_false (fun h => Text.not_mem_of_lower_eq hword h hname)
        fun h => Text.not_mem_of_lower_eq hword h hbytes
  lower _ h := h

theorem fair_plain : Naming.plain.Fair where
  read hquoted hread := by
    simp only [Naming.plain, hquoted] at hread
    exact ⟨_, hread⟩
  fold := by
    intro word bytes name hword hsame
    show name.lowerAscii = word ↔ bytes.mend.lowerAscii = word
    rw [Text.lowerAscii_mend_eq_iff hword]
    rcases hsame with rfl | ⟨hbytes, hname⟩
    · rfl
    · exact iff_of_false (fun h => Text.not_mem_of_lowerAscii_eq hword h hname)
        fun h => Text.not_mem_of_lowerAscii_eq hword h hbytes
  lower hword h := Text.lower_eq_of_lowerAscii_eq hword h

/-- The field that a name is the name of. -/
def Naming.field? (naming : Naming) (fields : List (Field α)) (name : Text) : Option (Field α) :=
  fields.find? fun field => field.name.lower = naming.fold name

/-- A field that has a plain name and comes to the end of its values. -/
structure Field.Sound (field : Field α) : Prop where
  plain : field.name.lowerAscii.isSmallWord = true
  agrees : Agrees field.decode

/-- Members that are applied to a record one after another. -/
inductive Applies (naming : Naming) (fields : List (Field α)) :
    α → List (Text × Json) → α → Prop where
  | done {record : α} : Applies naming fields record [] record
  | known {record next new : α} {name : Text} {value : Json} {members : List (Text × Json)}
      {field : Field α} (hfield : naming.field? fields name = some field)
      (h : Makes field.decode record value next) (hmore : Applies naming fields next members new) :
      Applies naming fields record ((name, value) :: members) new
  | unknown {record new : α} {name : Text} {value : Json} {members : List (Text × Json)}
      (hfield : naming.field? fields name = none)
      (hmore : Applies naming fields record members new) :
      Applies naming fields record ((name, value) :: members) new

variable {naming : Naming} {fields : List (Field α)}

theorem Naming.field?_cons_self {field : Field α} {name : Text}
    (h : field.name.lower = naming.fold name) : naming.field? (field :: fields) name = some field :=
  List.find?_cons_of_pos (decide_eq_true h)

theorem Naming.field?_cons_of_ne {field : Field α} {name : Text}
    (h : field.name.lower ≠ naming.fold name) :
    naming.field? (field :: fields) name = naming.field? fields name :=
  List.find?_cons_of_neg fun heq => h (of_decide_eq_true heq)

/-- The field of a name is the same in whichever style the name was read. -/
theorem Naming.Fair.field?_eq (hnaming : naming.Fair) (hfields : ∀ field ∈ fields, field.Sound)
    {bytes name : Text} (hsame : SameOrReplaced bytes name) :
    naming.field? fields name = naming.field? fields bytes.mend := by
  rw [Naming.field?, Naming.field?]
  induction fields with
  | nil => rfl
  | cons field fields ih =>
      have hplain := (hfields field List.mem_cons_self).plain
      have hfold := hnaming.fold (Text.isSmallWord_lower hplain) hsame
      have hmatches : decide (field.name.lower = naming.fold name) =
          decide (field.name.lower = naming.fold bytes.mend) := by
        rw [decide_eq_decide, eq_comm, hfold, eq_comm]
      rw [List.find?_cons, List.find?_cons, hmatches,
        ih fun other hother => hfields other (List.mem_cons_of_mem _ hother)]

theorem Naming.Fair.lower_eq_of_field? (hnaming : naming.Fair)
    (hfields : ∀ field ∈ fields, field.Sound) {name : Text} {field : Field α}
    (h : naming.field? fields name = some field) : name.lower = field.name.lower := by
  have hplain := (hfields field (List.mem_of_find?_eq_some h)).plain
  have hfold : field.name.lower = naming.fold name := by simpa using List.find?_some h
  exact hnaming.lower (Text.isSmallWord_lower hplain) hfold.symm

private theorem ending_of_members {next new : α} {behind : Text}
    (h : (match skipSpace behind with
      | 0x2C :: after => members naming fields room fuel next after
      | 0x7D :: after => some (next, after)
      | _ => none) = some (new, rest)) :
    Ending 0x7D behind rest (new = next) fun after =>
      members naming fields room fuel next after = some (new, rest) := by
  split at h
  · next after hcomma => exact .comma hcomma h
  · next hclose =>
      cases h
      exact .close hclose rfl
  · cases h

private theorem members_eq_some {record new : α}
    (h : members naming fields room (fuel + 1) record text = some (new, rest)) :
    ∃ name behindName colon next behind, naming.read text = some (name, behindName) ∧
      skipSpace behindName = 0x3A :: colon ∧
      ((∃ field, naming.field? fields name = some field ∧
          field.decode room record colon = some (next, behind)) ∨
        naming.field? fields name = none ∧ next = record ∧
          ∃ fuel, pass? fuel room colon = some behind) ∧
      Ending 0x7D behind rest (new = next) fun after =>
        members naming fields room fuel next after = some (new, rest) := by
  rw [members] at h
  simp only [Option.bind_eq_bind, Option.bind_eq_some_iff] at h
  obtain ⟨⟨name, behindName⟩, hname, h⟩ := h
  split at h
  · next colon hcolon =>
      split at h
      · next field hfield =>
          obtain ⟨⟨next, behind⟩, hdecode, h⟩ := Option.bind_eq_some_iff.mp h
          exact ⟨name, behindName, colon, next, behind, hname, hcolon,
            .inl ⟨field, hfield, hdecode⟩, ending_of_members h⟩
      · next hfield =>
          obtain ⟨⟨next, behind⟩, hpassed, h⟩ := Option.bind_eq_some_iff.mp h
          obtain ⟨after, hpass, hpassed⟩ := Option.map_eq_some_iff.mp hpassed
          cases hpassed
          exact ⟨name, behindName, colon, _, _, hname, hcolon, .inr ⟨hfield, rfl, _, hpass⟩,
            ending_of_members h⟩
  · cases h

private theorem members_cases (hnaming : naming.Fair) (hfields : ∀ field ∈ fields, field.Sound)
    {fuel' : Nat} {record new : α} {values : List (Text × Json)}
    (hvalues : members? fuel depth text = some (values, rest))
    (h : members naming fields room fuel' record text = some (new, rest')) :
    rest' = rest ∧ Applies naming fields record values new := by
  induction fuel' generalizing fuel record text values new with
  | zero => cases h
  | succ fuel' ih =>
      cases fuel with
      | zero => cases hvalues
      | succ fuel =>
          obtain ⟨quoted, strict, behindName, colon, value, behind, hquoted, hstrict, hcolon,
            hvalue, hend⟩ := members?_eq_some hvalues
          obtain ⟨name, behindName', colon', next, behind', hname, hcolon', hdecoded, hend'⟩ :=
            members_eq_some h
          have hbehind : EndsNumeral behind := hend.endsNumeral (by decide)
          have hbehind' : EndsNumeral behind' := hend'.endsNumeral (by decide)
          obtain ⟨controls, hlenient⟩ := hnaming.read hquoted hname
          obtain rfl : behindName' = behindName := strictText?_lenientText?_rest hstrict hlenient
          obtain rfl : colon' = colon := (List.cons.inj (hcolon'.symm.trans hcolon)).2
          obtain ⟨bytes, rfl, hsame⟩ := exists_sameOrReplaced hstrict hlenient
          rw [hnaming.field?_eq hfields hsame] at hdecoded
          -- Whichever way the value was gone over, reading goes on in the same place.
          have hstep : behind' = behind ∧ ∀ {more : List (Text × Json)},
              Applies naming fields next more new →
                Applies naming fields record ((bytes.mend, value) :: more) new := by
            rcases hdecoded with ⟨field, hfield, hdecode⟩ | ⟨hfield, rfl, _, hpass⟩
            · have hsound := hfields field (List.mem_of_find?_eq_some hfield)
              obtain rfl : behind' = behind := hsound.agrees hvalue hbehind hdecode hbehind'
              exact ⟨rfl, .known hfield ⟨_, _, _, _, _, hvalue, hdecode⟩⟩
            · exact ⟨rest_eq_of_pass? hvalue hbehind hpass, .unknown hfield⟩
          obtain ⟨rfl, happlies⟩ := hstep
          rcases hend.meet (by decide) hend' with
            ⟨hrest, rfl, rfl⟩ | ⟨_, ⟨more, hmore, rfl⟩, hmore'⟩
          · exact ⟨hrest, happlies .done⟩
          · obtain ⟨hrest, hmembers⟩ := ih hmore hmore'
            exact ⟨hrest, happlies hmembers⟩

/-- What a record makes of a value, and where it ends. -/
theorem recordWith_cases (hnaming : naming.Fair) (hfields : ∀ field ∈ fields, field.Sound)
    {old new : α} (hvalue : value? fuel depth text = some (value, rest))
    (h : recordWith naming fields room old text = some (new, rest')) :
    rest' = rest ∧ ((value = .null ∧ new = old) ∨
      ∃ members, value = .object members ∧ Applies naming fields old members new) := by
  rw [recordWith] at h
  split at h
  · next behind htext =>
      cases fuel with
      | zero => cases hvalue
      | succ fuel =>
          have hreads := reads_of_value? hvalue
          rw [htext] at hreads
          cases hreads with
          | noMembers hclose =>
              rw [hclose] at h
              cases h
              exact ⟨rfl, .inr ⟨[], rfl, .done⟩⟩
          | members hsome hvalues =>
              split at h
              · next hclose => exact (hsome _ hclose).elim
              · split at h
                · cases h
                · obtain ⟨hrest, happlies⟩ := members_cases hnaming hfields hvalues h
                  exact ⟨hrest, .inr ⟨_, rfl, happlies⟩⟩
          | number hbyte _ => rcases hbyte with hbyte | hbyte <;> cases hbyte
  · obtain ⟨after, hnull, h⟩ := Option.map_eq_some_iff.mp h
    cases h
    obtain ⟨rfl, rfl⟩ := value?_of_null hvalue hnull
    exact ⟨rfl, .inl ⟨rfl, rfl⟩⟩

theorem agrees_recordWith (hnaming : naming.Fair) (hfields : ∀ field ∈ fields, field.Sound) :
    Agrees (recordWith naming fields) := by
  intro _ _ _ _ _ _ _ _ _ hvalue _ h _
  exact (recordWith_cases hnaming hfields hvalue h).1

theorem makes_recordWith (hnaming : naming.Fair) (hfields : ∀ field ∈ fields, field.Sound)
    {old new : α} (h : Makes (recordWith naming fields) old value new) :
    (value = .null ∧ new = old) ∨
      ∃ members, value = .object members ∧ Applies naming fields old members new := by
  obtain ⟨_, _, _, _, _, hvalue, hread⟩ := h
  exact (recordWith_cases hnaming hfields hvalue hread).2

/-! ## What runs of members keep -/

/-- Whether each of some members keeps a property of the record, and where that holds also a
further one. -/
def Kept (naming : Naming) (fields : List (Field α)) (members : List (Text × Json))
    (P Q : α → Prop) : Prop :=
  ∀ {name : Text} {value : Json} {field : Field α} {record next : α}, (name, value) ∈ members →
    naming.field? fields name = some field → Makes field.decode record value next →
      P record → P next ∧ (Q record → Q next)

theorem Kept.tail {member : Text × Json} {members : List (Text × Json)} {P Q : α → Prop}
    (h : Kept naming fields (member :: members) P Q) : Kept naming fields members P Q := by
  intro _ _ _ _ _ hmember
  exact h (List.mem_cons_of_mem _ hmember)

/-- What each member keeps is kept by all of them. -/
theorem Applies.keeps {P Q : α → Prop} {old new : α} {members : List (Text × Json)}
    (h : Applies naming fields old members new) (hkept : Kept naming fields members P Q)
    (hold : P old) : P new ∧ (Q old → Q new) := by
  induction h with
  | done => exact ⟨hold, id⟩
  | known hfield hmakes _ ih =>
      have hnext := hkept List.mem_cons_self hfield hmakes hold
      have hnew := ih hkept.tail hnext.1
      exact ⟨hnew.1, fun hQ => hnew.2 (hnext.2 hQ)⟩
  | unknown _ _ ih => exact ih hkept.tail hold

/-- What one member makes true is true in the end, if all of them keep it. -/
theorem Applies.establishes {P Q : α → Prop} {old new : α} {members : List (Text × Json)}
    (h : Applies naming fields old members new) (hkept : Kept naming fields members P Q)
    (hold : P old) {name : Text} {value : Json} {field : Field α}
    (hmember : (name, value) ∈ members) (hfield : naming.field? fields name = some field)
    (hmakes : ∀ {record next}, Makes field.decode record value next → P record → Q next) :
    Q new := by
  induction h with
  | done => cases hmember
  | known hother hread hmore ih =>
      have hnext := hkept List.mem_cons_self hother hread hold
      rcases List.mem_cons.mp hmember with heq | hmember
      · cases heq
        cases hfield.symm.trans hother
        exact (hmore.keeps hkept.tail hnext.1).2 (hmakes hread hold)
      · exact ih hkept.tail hnext.1 hmember
  | unknown hother _ ih =>
      rcases List.mem_cons.mp hmember with heq | hmember
      · cases heq
        cases hfield.symm.trans hother
      · exact ih hkept.tail hold hmember

/-- The last member of a name. -/
def Naming.last? (naming : Naming) (name : Text) (members : List (Text × Json)) : Option Json :=
  (members.reverse.find? fun (key, _) => naming.fold key = name.lower).map (·.2)

private theorem Naming.last?_cons (naming : Naming) (name key : Text) (value : Json)
    (members : List (Text × Json)) :
    naming.last? name ((key, value) :: members) =
      (naming.last? name members).or
        (if naming.fold key = name.lower then some value else none) := by
  rw [Naming.last?, Naming.last?, List.reverse_cons, List.find?_append, Option.map_or,
    List.find?_singleton]
  by_cases hkey : naming.fold key = name.lower
  · simp [hkey]
  · simp [hkey]

private theorem Naming.last?_ne_none {name : Text} {value : Json} {members : List (Text × Json)}
    (hname : naming.fold name = name.lower) (h : (name, value) ∈ members) :
    naming.last? name members ≠ none := by
  rw [Naming.last?, Ne, Option.map_eq_none_iff, List.find?_eq_none]
  intro hnone
  exact hnone (name, value) (List.mem_reverse.mpr h) (by simpa using hname)

/-- A part of a record that one name decides on is missing in the end when the last member of that
name is nothing, and without such a member when it was missing before. -/
theorem Applies.eq_none_iff {old new : α} {members : List (Text × Json)}
    (h : Applies naming fields old members new) (part : α → Option β) (name : Text)
    (hown : ∀ field ∈ fields, field.name.lower = name.lower →
      ∀ {record value next}, Makes field.decode record value next →
        (part next = none ↔ value = .null))
    (hother : ∀ field ∈ fields, field.name.lower ≠ name.lower →
      ∀ {record value next}, Makes field.decode record value next → part next = part record)
    (hfound : ∃ field ∈ fields, field.name.lower = name.lower) :
    part new = none ↔
      naming.last? name members = some .null ∨
        naming.last? name members = none ∧ part old = none := by
  induction h with
  | done => simp [Naming.last?]
  | @known record next new key value members field hfield hmakes _ ih =>
      have hmem : field ∈ fields := List.mem_of_find?_eq_some hfield
      have hname : field.name.lower = naming.fold key := by simpa using List.find?_some hfield
      rw [ih, Naming.last?_cons]
      cases hlast : naming.last? name members with
      | some last => simp
      | none =>
          by_cases hkey : naming.fold key = name.lower
          · have hnone := hown field hmem (hname.trans hkey) hmakes
            simp [hkey, hnone]
          · have hsame := hother field hmem (fun heq => hkey (hname.symm.trans heq)) hmakes
            simp [hkey, hsame]
  | @unknown record new key value members hfield _ ih =>
      have hkey : naming.fold key ≠ name.lower := by
        intro hkey
        obtain ⟨field, hmem, hname⟩ := hfound
        exact List.find?_eq_none.mp hfield field hmem (by simp [hname, hkey])
      rw [ih, Naming.last?_cons]
      simp [hkey]

/-- A part of a record that one name decides on is missing exactly when the last member of that
name is nothing, if there is a member of that name. -/
theorem makes_eq_none_iff (hnaming : naming.Fair) (hfields : ∀ field ∈ fields, field.Sound)
    {old new : α} {members : List (Text × Json)} {inner : Json}
    (h : Makes (recordWith naming fields) old (.object members) new) (part : α → Option β)
    (name : Text) (hname : naming.fold name = name.lower) (hpresent : (name, inner) ∈ members)
    (hown : ∀ field ∈ fields, field.name.lower = name.lower →
      ∀ {record value next}, Makes field.decode record value next →
        (part next = none ↔ value = .null))
    (hother : ∀ field ∈ fields, field.name.lower ≠ name.lower →
      ∀ {record value next}, Makes field.decode record value next → part next = part record)
    (hfound : ∃ field ∈ fields, field.name.lower = name.lower) :
    part new = none ↔ naming.last? name members = some .null := by
  rcases makes_recordWith hnaming hfields h with ⟨hnull, _⟩ | ⟨_, heq, happlies⟩
  · cases hnull
  · cases heq
    have hlast := Naming.last?_ne_none hname hpresent
    rw [happlies.eq_none_iff part name hown hother hfound, or_iff_left fun hnone => hlast hnone.1]

/-! ## Fields -/

theorem Field.sound_of {name : Text} {decoder : Decoder β} {part : α → β} {replace : α → β → α}
    (hname : name.lowerAscii.isSmallWord = true) (hdecoder : Agrees decoder) :
    (Field.of name decoder part replace).Sound where
  plain := hname
  agrees := by
    intro _ _ _ _ _ _ _ _ _ hvalue hrest h hrest'
    obtain ⟨⟨read, after⟩, hread, h⟩ := Option.map_eq_some_iff.mp h
    cases h
    exact hdecoder hvalue hrest hread hrest'

theorem makes_of {name : Text} {decoder : Decoder β} {part : α → β} {replace : α → β → α}
    {old new : α} (h : Makes (Field.of name decoder part replace).decode old value new) :
    ∃ read, Makes decoder (part old) value read ∧ new = replace old read := by
  obtain ⟨_, _, _, _, _, hvalue, hread⟩ := h
  obtain ⟨⟨read, after⟩, hread, h⟩ := Option.map_eq_some_iff.mp hread
  cases h
  exact ⟨read, ⟨_, _, _, _, _, hvalue, hread⟩, rfl⟩

end Decoder

end Shortfall.Json

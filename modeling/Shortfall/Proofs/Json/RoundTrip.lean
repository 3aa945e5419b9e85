import Shortfall.Json.Printer
import Shortfall.Proofs.Json.Decoding
import Shortfall.Proofs.Text.Characters
import Shortfall.Proofs.Text.Delimiters

/-!
# Reading what was written

A value that is written on one line is read back as it was (`ReadsBack`). Texts come back from
between their quotes with every escape undone, whole numbers of 64 bits from their digits, and
lists and records from the texts of what they hold. What stands behind the value does not matter,
as long as no number goes on there.

A record is read member by member. `Fills` says what the members make of a record, so that the
members of a record that are written in several groups can be looked at group by group.
-/

namespace Shortfall.Json

/-! ## Escapes -/

private theorem hexValue?_digit : ∀ digit < 16,
    Text.hexValue? (UInt8.ofNat (if digit < 10 then 0x30 + digit else 0x57 + digit)) =
      some digit := by
  decide

/-- Four hexadecimal digits are read back. -/
theorem hexQuad?_ofHex {unit : Nat} (h : unit < 65536) (rest : Text) :
    hexQuad? (Text.ofHex 4 unit ++ rest) = some (unit, rest) := by
  have hmod : ∀ n, n % 16 < 16 := fun n => Nat.mod_lt n (by decide)
  simp only [Text.ofHex, List.nil_append, List.cons_append, hexQuad?,
    hexValue?_digit _ (hmod _), Option.bind_eq_bind, Option.bind_some, Option.some.injEq,
    Prod.mk.injEq, and_true]
  omega

private theorem digit_le_of_mem_ofHex {width unit : Nat} {byte : UInt8}
    (h : byte ∈ Text.ofHex width unit) : 0x30 ≤ byte := by
  have hdigit : ∀ digit < 16,
      0x30 ≤ UInt8.ofNat (if digit < 10 then 0x30 + digit else 0x57 + digit) := by
    decide
  induction width generalizing unit with
  | zero => exact absurd h List.not_mem_nil
  | succ width ih =>
      rw [Text.ofHex, List.mem_append, List.mem_singleton] at h
      rcases h with hfront | rfl
      · exact ih hfront
      · exact hdigit _ (Nat.mod_lt unit (by decide))

/-- An escape stands on one line and reads as the character. -/
def Escapes (c : Char) (escape : Text) : Prop :=
  ∃ body, escape = 0x5C :: body ∧ 0x0A ∉ body ∧
    ∀ rest, escape? .lenient (body ++ rest) = some (String.utf8EncodeChar c, rest)

private theorem escapes_unit {c : Char} (hc : c.toNat < 0xD800) :
    Escapes c ("\\u" ++ Text.ofHex 4 c.toNat) := by
  have hunit : isSurrogate c.toNat = false := by
    simp only [isSurrogate, Bool.and_eq_false_iff, decide_eq_false_iff_not]
    omega
  refine ⟨0x75 :: Text.ofHex 4 c.toNat, rfl, ?_, fun rest => ?_⟩
  · rw [List.mem_cons, not_or]
    exact ⟨by decide, fun hmem => absurd (digit_le_of_mem_ofHex hmem) (by decide)⟩
  · rw [List.cons_append, escape?, hexQuad?_ofHex (by omega)]
    simp [hunit, unitBytes, Char.ofNat_toNat]

private theorem escapes_of_plainEscape? {c : Char} {escape : Text}
    (h : plainEscape? c = some escape) : Escapes c escape := by
  unfold plainEscape? at h
  split at h
  · next hc => cases hc; cases h; exact ⟨[0x22], rfl, by decide, fun _ => rfl⟩
  split at h
  · next hc => cases hc; cases h; exact ⟨[0x5C], rfl, by decide, fun _ => rfl⟩
  split at h
  · next hc => cases hc; cases h; exact ⟨[0x6E], rfl, by decide, fun _ => rfl⟩
  split at h
  · next hc => cases hc; cases h; exact ⟨[0x72], rfl, by decide, fun _ => rfl⟩
  split at h
  · next hc => cases hc; cases h; exact ⟨[0x74], rfl, by decide, fun _ => rfl⟩
  split at h
  · next hc => cases h; exact escapes_unit (by omega)
  · cases h

theorem escapes_of_webEscape? {c : Char} {escape : Text} (h : webEscape? c = some escape) :
    Escapes c escape := by
  rw [webEscape?] at h
  split at h
  · next hplain => cases h; exact escapes_of_plainEscape? hplain
  · split at h
    · next hc =>
        cases h
        refine escapes_unit ?_
        simp only [Bool.or_eq_true, decide_eq_true_eq] at hc
        rcases hc with (((rfl | rfl) | rfl) | hc) | hc
        · decide
        · decide
        · decide
        · omega
        · omega
    · cases h

/-- The bytes that stand for themselves between quotes. -/
def IsPlain (byte : UInt8) : Prop := byte ≠ 0x22 ∧ byte ≠ 0x5C ∧ ¬byte < 0x20

private theorem eq_of_toNat_eq {c d : Char} (h : c.toNat = d.toNat) : c = d := by
  rw [← Char.ofNat_toNat c, h, Char.ofNat_toNat]

private theorem isPlain_of_webEscape? {c : Char} (h : webEscape? c = none) :
    ∀ byte ∈ String.utf8EncodeChar c, IsPlain byte := by
  have hplain : plainEscape? c = none := by
    cases hescape : plainEscape? c with
    | none => rfl
    | some escape => rw [webEscape?, hescape] at h; cases h
  have hquote : c.toNat ≠ 0x22 := by
    intro hc
    rw [eq_of_toNat_eq (d := '"') hc] at hplain
    cases hplain
  have hbackslash : c.toNat ≠ 0x5C := by
    intro hc
    rw [eq_of_toNat_eq (d := '\\') hc] at hplain
    cases hplain
  have hcontrol : 0x20 ≤ c.toNat := by
    by_contra hlow
    have hlow : c.toNat < 0x20 := by omega
    simp only [plainEscape?, hlow, if_true] at hplain
    grind
  intro byte hmem
  rw [IsPlain, UInt8.lt_iff_toNat_lt, ← UInt8.toNat_inj.ne, ← UInt8.toNat_inj.ne]
  rcases Text.encode_cases c with ⟨hascii, hbytes⟩ | ⟨_, hhigh⟩
  · rw [hbytes, List.mem_singleton] at hmem
    have hbyte : byte.toNat = c.toNat := by
      rw [hmem, UInt8.toNat_ofNat']
      omega
    rw [hbyte]
    exact ⟨hquote, hbackslash, by simpa using hcontrol⟩
  · have hbyte := hhigh byte hmem
    refine ⟨?_, ?_, ?_⟩ <;> simp <;> omega

/-! ## Texts -/

/-- The characters of a text as they stand between the quotes. -/
def escaped (chars : List Char) : Text :=
  chars.flatMap fun c => (webEscape? c).getD (String.utf8EncodeChar c)

private theorem quoteText_ofChars (chars : List Char) :
    quoteText (Text.ofChars chars) = 0x22 :: escaped chars ++ [0x22] := by
  rw [quoteText, quoteWith, Text.pieces_ofChars, List.flatMap_map]
  rfl

/-- Bytes that stand for themselves are read one by one. -/
theorem quotedBytes?_plain {bytes : Text} (hbytes : ∀ byte ∈ bytes, IsPlain byte) (fuel : Nat)
    (controls : Bool) {text more rest : Text}
    (h : quotedBytes? .lenient fuel controls text = some (more, rest)) :
    quotedBytes? .lenient (fuel + bytes.length) controls (bytes ++ text) =
      some (bytes ++ more, rest) := by
  induction bytes with
  | nil => exact h
  | cons byte bytes ih =>
      rw [List.forall_mem_cons] at hbytes
      obtain ⟨⟨hquote, hbackslash, hcontrol⟩, hrest⟩ := hbytes
      rw [List.length_cons, ← Nat.add_assoc, List.cons_append, quotedBytes?]
      simp [hquote, hbackslash, hcontrol, ih hrest]

/-- An escaped text is read up to the quote behind it. -/
theorem quotedBytes?_escaped (chars : List Char) (fuel : Nat) (controls : Bool) (rest : Text)
    (hfuel : (escaped chars).length < fuel) :
    quotedBytes? .lenient fuel controls (escaped chars ++ 0x22 :: rest) =
      some (Text.ofChars chars, rest) := by
  induction chars generalizing fuel controls with
  | nil =>
      cases fuel with
      | zero => exact absurd hfuel (Nat.not_lt_zero _)
      | succ fuel => rfl
  | cons c chars ih =>
      have hescaped : escaped (c :: chars) =
          (webEscape? c).getD (String.utf8EncodeChar c) ++ escaped chars := List.flatMap_cons
      have hchars : Text.ofChars (c :: chars) = String.utf8EncodeChar c ++ Text.ofChars chars :=
        List.flatMap_cons
      rw [hescaped, List.length_append] at hfuel
      rw [hescaped, hchars, List.append_assoc]
      cases hescape : webEscape? c with
      | none =>
          rw [hescape, Option.getD_none] at hfuel
          have hrest := ih (fuel - (String.utf8EncodeChar c).length) controls (by omega)
          have hread := quotedBytes?_plain (isPlain_of_webEscape? hescape) _ controls hrest
          rwa [Nat.sub_add_cancel (by omega)] at hread
      | some escape =>
          obtain ⟨body, rfl, _, hbody⟩ := escapes_of_webEscape? hescape
          rw [hescape, Option.getD_some, List.length_cons] at hfuel
          cases fuel with
          | zero => exact absurd hfuel (Nat.not_lt_zero _)
          | succ fuel =>
              rw [Option.getD_some, List.cons_append, quotedBytes?]
              simp [hbody, ih fuel _ (by omega)]

private theorem lenientText?_quoted (chars : List Char) (controls : Bool) (rest : Text) :
    lenientText? controls (escaped chars ++ [0x22] ++ rest) = some (Text.ofChars chars, rest) := by
  rw [List.append_assoc, List.singleton_append, lenientText?]
  refine quotedBytes?_escaped chars _ controls rest ?_
  rw [List.length_append, List.length_cons]
  omega

private theorem textOrNull?_quoteText {text : Text} (h : text.isWellFormed = true) (rest : Text) :
    textOrNull? (quoteText text ++ rest) = some (text, rest) := by
  obtain ⟨chars, rfl⟩ := Text.isWellFormed_iff.mp h
  rw [quoteText_ofChars]
  exact lenientText?_quoted chars false rest

/-! ## Lines -/

/-- A text without line breaks. -/
def OneLine (text : Text) : Prop := 0x0A ∉ text

instance (text : Text) : Decidable (OneLine text) := inferInstanceAs (Decidable (0x0A ∉ text))

theorem oneLine_append {front back : Text} (hfront : OneLine front) (hback : OneLine back) :
    OneLine (front ++ back) := by
  rw [OneLine, List.mem_append, not_or]
  exact ⟨hfront, hback⟩

theorem joinWith_cons_cons (separator first second : Text) (parts : List Text) :
    Text.joinWith separator (first :: second :: parts) =
      first ++ separator ++ Text.joinWith separator (second :: parts) := rfl

private theorem oneLine_joinWith {separator : Text} (hseparator : OneLine separator)
    {parts : List Text} (hparts : ∀ part ∈ parts, OneLine part) :
    OneLine (Text.joinWith separator parts) := by
  induction parts with
  | nil => exact List.not_mem_nil
  | cons first parts ih =>
      rw [List.forall_mem_cons] at hparts
      cases parts with
      | nil => exact hparts.1
      | cons second parts =>
          exact oneLine_append (oneLine_append hparts.1 hseparator) (ih hparts.2)

private theorem oneLine_escaped (c : Char) :
    OneLine ((webEscape? c).getD (String.utf8EncodeChar c)) := by
  intro hmem
  cases hescape : webEscape? c with
  | none =>
      rw [hescape, Option.getD_none] at hmem
      exact (isPlain_of_webEscape? hescape _ hmem).2.2 (by decide)
  | some escape =>
      obtain ⟨body, rfl, hbody, _⟩ := escapes_of_webEscape? hescape
      rw [hescape, Option.getD_some, List.mem_cons] at hmem
      rcases hmem with hbackslash | hmem
      · exact absurd hbackslash (by decide)
      · exact hbody hmem

theorem oneLine_quoteText (text : Text) : OneLine (quoteText text) := by
  rw [OneLine, quoteText, quoteWith, List.cons_append, List.mem_cons, List.mem_append,
    List.mem_singleton, List.mem_flatMap]
  rintro (hquote | ⟨piece, _, hmem⟩ | hquote)
  · exact absurd hquote (by decide)
  · cases piece with
    | char c => exact oneLine_escaped c hmem
    | stray byte => exact absurd (show 0x0A ∈ Text.ofString "\\ufffd" from hmem) (by decide)
  · exact absurd hquote (by decide)

theorem oneLine_ofInt (n : Int) : OneLine (Text.ofInt n) := by
  have hdigits : ∀ m, OneLine (Text.ofNat m) := fun m hmem =>
    absurd (Text.isDigit_of_mem_ofNat hmem) (by decide)
  cases n with
  | ofNat m => exact hdigits m
  | negSucc m => exact oneLine_append (by decide : OneLine "-") (hdigits (m + 1))

private theorem compactItems_eq_map (items : List Json) :
    compactItems items = items.map compact := by
  induction items with
  | nil => rfl
  | cons item items ih => rw [compactItems, ih, List.map_cons]

theorem compactMembers_eq_map (members : List (Text × Json)) :
    compactMembers members =
      members.map fun member => quoteText member.1 ++ ":" ++ member.2.compact := by
  induction members with
  | nil => rfl
  | cons member members ih => rw [compactMembers, ih, List.map_cons]

private theorem compact_texts (items : List Text) :
    (Json.texts items).compact = "[" ++ Text.joinWith "," (items.map quoteText) ++ "]" := by
  rw [Json.texts, compact, compactItems_eq_map, List.map_map]
  rfl

theorem oneLine_texts (items : List Text) : OneLine (Json.texts items).compact := by
  have hparts : ∀ part ∈ items.map quoteText, OneLine part := by
    intro part hpart
    obtain ⟨item, _, rfl⟩ := List.mem_map.mp hpart
    exact oneLine_quoteText item
  rw [compact_texts]
  exact oneLine_append (oneLine_append (by decide) (oneLine_joinWith (by decide) hparts))
    (by decide)

theorem oneLine_object {members : List (Text × Json)}
    (h : ∀ member ∈ members, OneLine member.2.compact) : OneLine (object members).compact := by
  have hparts : ∀ part ∈ compactMembers members, OneLine part := by
    intro part hpart
    rw [compactMembers_eq_map] at hpart
    obtain ⟨member, hmember, rfl⟩ := List.mem_map.mp hpart
    exact oneLine_append (oneLine_append (oneLine_quoteText member.1) (by decide))
      (h member hmember)
  rw [compact]
  exact oneLine_append (oneLine_append (by decide) (oneLine_joinWith (by decide) hparts))
    (by decide)

namespace Decoder

variable {α β : Type}

/-- A decoder reads a text over an old value, up to what stands behind it. -/
def ReadsBack (decoder : Decoder α) (room : Nat) (old : α) (text : Text) (new : α) : Prop :=
  ∀ rest, EndsNumeral rest → decoder room old (text ++ rest) = some (new, rest)

theorem readsBack_text {text : Text} (h : text.isWellFormed = true) (room : Nat) (old : Text) :
    ReadsBack Decoder.text room old (quoteText text) text :=
  fun rest _ => textOrNull?_quoteText h rest

/-! ## Whole numbers -/

/-- No numeral but that of zero begins with a zero. -/
theorem head?_ofNat_ne {n : Nat} (h : n ≠ 0) : (Text.ofNat n).head? ≠ some 0x30 := by
  induction n using Nat.strongRecOn with
  | ind n ih =>
      rw [Text.ofNat_eq_map]
      by_cases hsmall : n < 10
      · rw [Nat.toDigits_of_lt_base hsmall]
        have hdigits : ∀ digit < 10, digit ≠ 0 →
            UInt8.ofNat (Nat.digitChar digit).toNat ≠ 0x30 := by decide
        simpa using hdigits n hsmall h
      · have hfront := ih (n / 10) (by omega) (by omega)
        rw [Text.ofNat_eq_map] at hfront
        have hne : (Nat.toDigits 10 (n / 10)).map (fun c => UInt8.ofNat c.toNat) ≠ [] := by
          simp
        rw [Nat.toDigits_of_base_le (by decide) (by omega), List.map_append,
          List.head?_append_of_ne_nil _ hne]
        exact hfront

/-- Digits are read as their value, if it has 64 bits. -/
theorem addDigits?_eq {digits : Text} (hdigits : ∀ byte ∈ digits, Text.isDigit byte = true)
    {start : Nat} (h : digitsValueFrom start digits < Word.count) :
    addDigits? start digits = some (digitsValueFrom start digits) := by
  induction digits generalizing start with
  | nil => rfl
  | cons digit digits ih =>
      rw [List.forall_mem_cons] at hdigits
      obtain ⟨hdigit, hrest⟩ := hdigits
      have hlow : 0x30 ≤ digit := by
        simp only [Text.isDigit, Bool.and_eq_true, decide_eq_true_eq] at hdigit
        exact hdigit.1
      have hvalue : (digit - 0x30).toNat = digit.toNat - 0x30 := UInt8.toNat_sub_of_le _ _ hlow
      have hnext := le_digitsValueFrom (start * 10 + (digit.toNat - 0x30)) digits
      have hbound : digitsValueFrom (start * 10 + (digit.toNat - 0x30)) digits < Word.count := h
      have hadd : addDigit? start digit = some (start * 10 + (digit.toNat - 0x30)) := by
        rw [addDigit?, hvalue, Nat.mod_eq_of_lt (by omega)]
        split
        · rfl
        · exact if_neg (by omega)
      have hcons : addDigits? start (digit :: digits) =
          (addDigit? start digit).bind (addDigits? · digits) := List.foldlM_cons
      rw [hcons, hadd, Option.bind_some, ih hrest hbound]
      rfl

private theorem digits?_append {digits rest : Text} (hne : digits ≠ [])
    (hdigits : ∀ byte ∈ digits, Text.isDigit byte = true) (hrest : EndsNumeral rest) :
    digits? (digits ++ rest) = some (digits, rest) := by
  have hstop : ∀ byte ∈ rest.head?, Text.isDigit byte = false := by
    intro byte hmem
    cases hdigit : Text.isDigit byte with
    | false => rfl
    | true =>
        have hnumeral := isNumeralByte_of_isDigit hdigit
        rw [hrest byte hmem] at hnumeral
        cases hnumeral
  have htake : rest.takeWhile Text.isDigit = [] ∧ rest.dropWhile Text.isDigit = rest := by
    cases rest with
    | nil => exact ⟨rfl, rfl⟩
    | cons byte rest => simp [hstop byte rfl]
  rw [digits?, List.takeWhile_append_of_pos hdigits, htake.1, List.append_nil,
    List.dropWhile_append_of_pos hdigits, htake.2]
  cases digits with
  | nil => exact absurd rfl hne
  | cons digit digits => rfl

/-- A numeral is read as its number, if it has 64 bits. -/
theorem magnitude?_ofNat {n : Nat} (h : n < Word.count) {rest : Text} (hrest : EndsNumeral rest) :
    magnitude? (Text.ofNat n ++ rest) = some (n, rest) := by
  have hdigits : ∀ byte ∈ Text.ofNat n, Text.isDigit byte = true := fun _ =>
    Text.isDigit_of_mem_ofNat
  have hvalue : digitsValueFrom 0 (Text.ofNat n) = n := by
    have hread := Text.digitsValue?_of_ne_nil (Text.ofNat_ne_nil n) hdigits
    rw [Text.digitsValue?_ofNat] at hread
    exact (Option.some.inj hread).symm
  have hadd : addDigits? 0 (Text.ofNat n) = some n := by
    rw [addDigits?_eq hdigits (by rwa [hvalue]), hvalue]
  have hpoint : rest.head? ≠ some 0x2E := fun hhead => absurd (hrest 0x2E hhead) (by decide)
  simp only [magnitude?]
  split
  · -- Only the numeral of zero begins with a zero.
    next behind htext =>
      obtain ⟨first, more, hfirst⟩ := List.exists_cons_of_ne_nil (Text.ofNat_ne_nil n)
      have hzero : n = 0 := by
        by_contra hne
        have hhead := head?_ofNat_ne hne
        rw [hfirst] at htext hhead
        exact hhead (congrArg some (List.cons.inj htext).1)
      subst hzero
      obtain rfl : behind = rest := (List.cons.inj htext).2.symm
      have hdigit : addDigits? 0 [0x30] = some 0 := rfl
      simp [hpoint, hdigit]
  · rw [digits?_append (Text.ofNat_ne_nil n) hdigits hrest]
    simp [hpoint, hadd]

/-- A number of 64 bits, with its sign. -/
def IsWord (n : Int) : Prop := -(Word.signBound : Int) ≤ n ∧ n < Word.signBound

instance (n : Int) : Decidable (IsWord n) := inferInstanceAs (Decidable (_ ∧ _))

theorem readsBack_int {n : Int} (h : IsWord n) (room : Nat) (old : Int) :
    ReadsBack int room old (Text.ofInt n) n := by
  intro rest hrest
  cases n with
  | negSucc m =>
      have hbound : m + 1 ≤ Word.signBound := by
        have hlow := h.1
        omega
      have hcount : Word.signBound < Word.count := by decide
      have hread := magnitude?_ofNat (show m + 1 < Word.count by omega) hrest
      have hspace : skipSpace (Text.ofInt (.negSucc m) ++ rest) =
          0x2D :: (Text.ofNat (m + 1) ++ rest) := rfl
      rw [int, hspace]
      simp only [hread, Option.bind_eq_bind, Option.bind_some, hbound, if_true]
      rfl
  | ofNat m =>
      have hbound : m < Word.signBound := Int.ofNat_lt.mp h.2
      have hcount : Word.signBound < Word.count := by decide
      have hread := magnitude?_ofNat (show m < Word.count by omega) hrest
      obtain ⟨first, more, hfirst⟩ := List.exists_cons_of_ne_nil (Text.ofNat_ne_nil m)
      have hdigit : Text.isDigit first = true :=
        Text.isDigit_of_mem_ofNat (hfirst ▸ List.mem_cons_self)
      have hspace : skipSpace (Text.ofInt (.ofNat m) ++ rest) = Text.ofNat m ++ rest := by
        have hfront : isSpace first = false := by
          cases hcase : isSpace first with
          | false => rfl
          | true =>
              have hnone := not_isNumeralByte_of_isSpace hcase
              rw [isNumeralByte_of_isDigit hdigit] at hnone
              cases hnone
        rw [Text.ofInt, hfirst, List.cons_append, skipSpace,
          List.dropWhile_cons_of_neg (by simp [hfront])]
      rw [int, hspace]
      split
      · next htext =>
          rw [hfirst] at htext
          obtain ⟨rfl, _⟩ := List.cons.inj htext
          cases hdigit
      · next htext =>
          rw [hfirst] at htext
          obtain ⟨rfl, _⟩ := List.cons.inj htext
          cases hdigit
      · simp only [hread, Option.bind_eq_bind, Option.bind_some, hbound, if_true]
        rfl

/-! ## Lists -/

theorem skipSpace_cons {byte : UInt8} (h : isSpace byte = false) (rest : Text) :
    skipSpace (byte :: rest) = byte :: rest := by
  rw [skipSpace, List.dropWhile_cons_of_neg (by simp [h])]

theorem endsNumeral_cons {byte : UInt8} (h : isNumeralByte byte = false) (rest : Text) :
    EndsNumeral (byte :: rest) := by
  intro first hfirst
  cases hfirst
  exact h

private theorem length_le_joinWith (parts : List Text) :
    parts.length ≤ (Text.joinWith "," parts).length + 1 := by
  induction parts with
  | nil => exact Nat.zero_le _
  | cons first parts ih =>
      cases parts with
      | nil => exact Nat.le_add_left 1 _
      | cons second parts =>
          have hcomma : (Text.ofString ",").length = 1 := rfl
          rw [joinWith_cons_cons, List.length_append, List.length_append, hcomma, List.length_cons]
          omega

/-- A text that begins an item. -/
def BeginsItem (text : Text) : Prop :=
  ∃ byte more, text = byte :: more ∧ isSpace byte = false ∧ byte ≠ 0x5D

section Lists

variable {blank : α} {item : Decoder α} {room : Nat} {write : α → Text}

private theorem overCells_joinWith {first : α} {items : List α}
    (hitems : ∀ a ∈ first :: items, item.ReadsBack room blank (write a) a) {fuel : Nat}
    (hfuel : items.length < fuel) (rest : Text) :
    overCells blank item room fuel []
        (Text.joinWith "," ((first :: items).map write) ++ 0x5D :: rest) =
      some ({ items := first :: items }, rest) := by
  induction items generalizing first fuel with
  | nil =>
      obtain ⟨fuel, rfl⟩ := Nat.exists_eq_add_of_lt hfuel
      have hread := hitems first List.mem_cons_self _
        (endsNumeral_cons (show isNumeralByte 0x5D = false by decide) rest)
      rw [overCells]
      simp only [List.map_cons, List.map_nil, Text.joinWith, List.headD_nil, hread,
        Option.bind_eq_bind, Option.bind_some, skipSpace_cons (show isSpace 0x5D = false by decide)]
      rfl
  | cons second items ih =>
      obtain ⟨fuel, rfl⟩ := Nat.exists_eq_add_of_lt hfuel
      rw [List.forall_mem_cons] at hitems
      have hread := hitems.1 _ (endsNumeral_cons (show isNumeralByte 0x2C = false by decide)
        (Text.joinWith "," ((second :: items).map write) ++ 0x5D :: rest))
      have hless : items.length < (second :: items).length + fuel := by
        rw [List.length_cons]
        omega
      have hmore := ih hitems.2 hless
      have htext : Text.joinWith "," ((first :: second :: items).map write) ++ 0x5D :: rest =
          write first ++ 0x2C ::
            (Text.joinWith "," ((second :: items).map write) ++ 0x5D :: rest) := by
        rw [List.map_cons, List.map_cons, joinWith_cons_cons, List.append_assoc, List.append_assoc]
        rfl
      rw [overCells, htext]
      simp only [List.headD_nil, hread, Option.bind_eq_bind, Option.bind_some,
        skipSpace_cons (show isSpace 0x2C = false by decide), List.tail_nil, hmore]

private theorem readsBack_list {items : List α}
    (hitems : ∀ a ∈ items, item.ReadsBack room blank (write a) a)
    (hbegins : ∀ a ∈ items, BeginsItem (write a)) :
    (list blank item).ReadsBack room none ("[" ++ Text.joinWith "," (items.map write) ++ "]")
      (some { items }) := by
  intro rest _
  cases items with
  | nil => rfl
  | cons first items =>
      obtain ⟨byte, more, hfirst, hspace, hclose⟩ := hbegins first List.mem_cons_self
      have htext : "[" ++ Text.joinWith "," ((first :: items).map write) ++ "]" ++ rest =
          0x5B :: (Text.joinWith "," ((first :: items).map write) ++ 0x5D :: rest) := by
        rw [List.append_assoc, List.append_assoc]
        rfl
      have hbyte : ∃ behind, Text.joinWith "," ((first :: items).map write) ++ 0x5D :: rest =
          byte :: behind := by
        cases items with
        | nil => exact ⟨_, by rw [List.map_cons, List.map_nil, Text.joinWith, hfirst]; rfl⟩
        | cons second items =>
            exact ⟨_, by rw [List.map_cons, List.map_cons, joinWith_cons_cons, hfirst]; rfl⟩
      obtain ⟨behind, hbehind⟩ := hbyte
      have hfuel : items.length <
          (Text.joinWith "," ((first :: items).map write) ++ 0x5D :: rest).length := by
        have hle := length_le_joinWith ((first :: items).map write)
        rw [List.length_map, List.length_cons] at hle
        rw [List.length_append, List.length_cons]
        omega
      have hread := overCells_joinWith hitems hfuel rest
      rw [list, htext, skipSpace_cons (by decide)]
      simp only [Option.map_none, Option.getD_none, hread, Option.map_some]
      rw [hbehind, skipSpace_cons hspace]
      split
      · next hsame => exact absurd (List.cons.inj hsame).1 hclose
      · rfl

end Lists

theorem readsBack_texts {items : List Text} (h : ∀ item ∈ items, item.isWellFormed = true)
    (room : Nat) :
    texts.ReadsBack room none (Json.texts items).compact (some { items }) := by
  rw [compact_texts]
  refine readsBack_list (fun item hmem => readsBack_text (h item hmem) room []) fun item _ => ?_
  exact ⟨0x22, _, rfl, by decide, by decide⟩

/-! ## Records -/

/-- A way of naming members that knows plain names as they were written. -/
structure Naming.KnowsPlain (naming : Naming) : Prop where
  read : ∀ name : Text, name.isWellFormed = true →
    ∀ rest, naming.read (quoteText name ++ rest) = some (name, rest)
  fold : ∀ name : Text, (∀ byte ∈ name, byte.toNat < 128) → naming.fold name = name.lowerAscii

theorem knowsPlain_general : Naming.general.KnowsPlain where
  read _ := textOrNull?_quoteText
  fold _ := Text.lower_eq_lowerAscii

theorem knowsPlain_plain : Naming.plain.KnowsPlain where
  read name h rest := by
    obtain ⟨chars, rfl⟩ := Text.isWellFormed_iff.mp h
    rw [quoteText_ofChars]
    exact lenientText?_quoted chars true rest
  fold _ _ := rfl

/-- Fields of which each can be told by its name, in any case. -/
structure NamedApart (fields : List (Field α)) : Prop where
  ascii : ∀ field ∈ fields, ∀ byte ∈ field.name, byte.toNat < 128
  apart : fields.Pairwise fun a b => a.name.lowerAscii ≠ b.name.lowerAscii

section Records

variable {naming : Naming} {fields : List (Field α)} {room : Nat}

private theorem NamedApart.isWellFormed_name (h : NamedApart fields) {field : Field α}
    (hmem : field ∈ fields) : field.name.isWellFormed = true :=
  Text.isWellFormed_iff.mpr ⟨_, Text.eq_ofChars_of_lt (h.ascii field hmem)⟩

private theorem NamedApart.field?_name (h : NamedApart fields) (hnaming : naming.KnowsPlain)
    {field : Field α} (hmem : field ∈ fields) :
    naming.field? fields field.name = some field := by
  have hfold := hnaming.fold field.name (h.ascii field hmem)
  have hlower : ∀ other ∈ fields, other.name.lower = other.name.lowerAscii := fun other hother =>
    Text.lower_eq_lowerAscii (h.ascii other hother)
  obtain ⟨hascii, hapart⟩ := h
  induction fields with
  | nil => exact absurd hmem List.not_mem_nil
  | cons first fields ih =>
      rw [List.pairwise_cons] at hapart
      rw [List.forall_mem_cons] at hlower hascii
      rcases List.mem_cons.mp hmem with rfl | hlater
      · exact Naming.field?_cons_self (hlower.1.trans hfold.symm)
      · rw [Naming.field?_cons_of_ne]
        · exact ih hlater hlower.2 hascii.2 hapart.2
        · rw [hlower.1, hfold]
          exact hapart.1 field hlater

/-- What members make of a record: each is read into the field of its name, over what those before
it have made. -/
inductive Fills (fields : List (Field α)) (room : Nat) : α → List (Text × Json) → α → Prop where
  | nil {record : α} : Fills fields room record [] record
  | cons {record next last : α} {field : Field α} {value : Json} {members : List (Text × Json)}
      (hfield : field ∈ fields) (hvalue : field.decode.ReadsBack room record value.compact next)
      (h : Fills fields room next members last) :
      Fills fields room record ((field.name, value) :: members) last

theorem Fills.append {record next last : α} {front back : List (Text × Json)}
    (hfront : Fills fields room record front next) (hback : Fills fields room next back last) :
    Fills fields room record (front ++ back) last := by
  induction hfront with
  | nil => exact hback
  | cons hfield hvalue _ ih => exact .cons hfield hvalue (ih hback)

theorem Fills.of_eq {record next last : α} {members : List (Text × Json)}
    (h : Fills fields room record members next) (hlast : next = last) :
    Fills fields room record members last :=
  hlast ▸ h

/-- The member of the field with a number. -/
theorem Fills.member {record : α} {name : Text} {decoder : Decoder β} {part : α → β}
    {replace : α → β → α} {value : Json} {new : β} (index : Nat)
    (hfield : fields[index]? = some (.of name decoder part replace))
    (hvalue : decoder.ReadsBack room (part record) value.compact new) :
    Fills fields room record [(name, value)] (replace record new) := by
  refine .cons (List.mem_of_getElem? hfield) (fun rest hrest => ?_) .nil
  show (decoder room (part record) (value.compact ++ rest)).map _ = _
  rw [hvalue rest hrest]
  rfl

private theorem members_of_fills (hnaming : naming.KnowsPlain) (hnames : NamedApart fields)
    {record last : α} {member : Text × Json} {more : List (Text × Json)}
    (h : Fills fields room record (member :: more) last) {fuel : Nat}
    (hfuel : more.length < fuel) (rest : Text) :
    members naming fields room fuel record
        (Text.joinWith "," (compactMembers (member :: more)) ++ 0x7D :: rest) =
      some (last, rest) := by
  induction more generalizing record member fuel with
  | nil =>
      obtain ⟨fuel, rfl⟩ := Nat.exists_eq_add_of_lt hfuel
      cases h with
      | @cons _ _ _ field value _ hfield hvalue hrest =>
          cases hrest
          have hknown := hnames.field?_name hnaming hfield
          rw [Naming.field?] at hknown
          have hread := hvalue _ (endsNumeral_cons (show isNumeralByte 0x7D = false by decide) rest)
          have htext : Text.joinWith "," (compactMembers [(field.name, value)]) ++ 0x7D :: rest =
              quoteText field.name ++ 0x3A :: (value.compact ++ 0x7D :: rest) := by
            rw [compactMembers, compactMembers, Text.joinWith, List.append_assoc, List.append_assoc]
            rfl
          rw [members, htext, hnaming.read _ (hnames.isWellFormed_name hfield)]
          simp only [Option.bind_eq_bind, Option.bind_some,
            skipSpace_cons (show isSpace 0x3A = false by decide), hknown, hread,
            skipSpace_cons (show isSpace 0x7D = false by decide)]
  | cons second more ih =>
      obtain ⟨fuel, rfl⟩ := Nat.exists_eq_add_of_lt hfuel
      cases h with
      | @cons _ _ _ field value _ hfield hvalue hrest =>
          have hknown := hnames.field?_name hnaming hfield
          rw [Naming.field?] at hknown
          have hread := hvalue _ (endsNumeral_cons (show isNumeralByte 0x2C = false by decide)
            (Text.joinWith "," (compactMembers (second :: more)) ++ 0x7D :: rest))
          have hless : more.length < (second :: more).length + fuel := by
            rw [List.length_cons]
            omega
          have hmore := ih hrest hless
          have htext : Text.joinWith "," (compactMembers ((field.name, value) :: second :: more))
              ++ 0x7D :: rest = quoteText field.name ++ 0x3A :: (value.compact ++ 0x2C ::
                (Text.joinWith "," (compactMembers (second :: more)) ++ 0x7D :: rest)) := by
            rw [compactMembers, compactMembers, joinWith_cons_cons, List.append_assoc,
              List.append_assoc, List.append_assoc, List.append_assoc]
            rfl
          rw [members, htext, hnaming.read _ (hnames.isWellFormed_name hfield)]
          simp only [Option.bind_eq_bind, Option.bind_some,
            skipSpace_cons (show isSpace 0x3A = false by decide), hknown, hread,
            skipSpace_cons (show isSpace 0x2C = false by decide), hmore]

/-- A record with some members is read back. -/
theorem readsBack_recordWith (hnaming : naming.KnowsPlain) (hnames : NamedApart fields)
    {old new : α} {members : List (Text × Json)} (hsome : members ≠ [])
    (h : Fills fields room old members new) :
    (recordWith naming fields).ReadsBack (room + 1) old (object members).compact new := by
  intro rest _
  obtain ⟨member, more, rfl⟩ := List.exists_cons_of_ne_nil hsome
  have htext : (object (member :: more)).compact ++ rest =
      0x7B :: (Text.joinWith "," (compactMembers (member :: more)) ++ 0x7D :: rest) := by
    rw [compact, List.append_assoc, List.append_assoc]
    rfl
  have hfuel : more.length <
      (Text.joinWith "," (compactMembers (member :: more)) ++ 0x7D :: rest).length := by
    have hle := length_le_joinWith (compactMembers (member :: more))
    rw [compactMembers_eq_map, List.length_map, List.length_cons, ← compactMembers_eq_map] at hle
    rw [List.length_append, List.length_cons]
    omega
  have hread := members_of_fills hnaming hnames h hfuel rest
  have hquote : ∃ behind, Text.joinWith "," (compactMembers (member :: more)) ++ 0x7D :: rest =
      0x22 :: behind := by
    cases more with
    | nil => exact ⟨_, rfl⟩
    | cons second more => exact ⟨_, rfl⟩
  obtain ⟨behind, hbehind⟩ := hquote
  rw [recordWith, htext, skipSpace_cons (by decide)]
  simp only [hread]
  rw [hbehind, skipSpace_cons (by decide)]
  rfl

theorem readsBack_optional {decoder : Decoder α} {blank new : α} {members : List (Text × Json)}
    (h : decoder.ReadsBack room blank (object members).compact new) :
    (optional blank decoder).ReadsBack room none (object members).compact (some new) := by
  intro rest hrest
  have hbrace : ∃ behind, (object members).compact ++ rest = 0x7B :: behind := ⟨_, rfl⟩
  obtain ⟨behind, hbehind⟩ := hbrace
  have hread := h rest hrest
  rw [hbehind] at hread
  rw [optional, hbehind, skipSpace_cons (by decide), Option.getD_none, hread]
  rfl

end Records

end Decoder

end Shortfall.Json

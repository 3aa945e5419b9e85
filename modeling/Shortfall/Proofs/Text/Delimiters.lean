import Mathlib.Data.List.Basic
import Shortfall.Text

/-!
# Where a text is cut

Messages are written by putting texts between fixed words, and nothing is escaped. Such a message
can be taken apart again only where the fixed words do not occur in the texts. This module says
what that takes. A delimiter is a word whose first byte does not occur in it a second time, so that
two occurrences never overlap; then the texts in front of its first occurrences are determined by
the whole (`front_eq_of_append_delimiter`). A single byte is a delimiter, which is all that is
needed to cut a numeral off at the blank behind it.

## Main results

* `occursIn_iff`: searching a text finds exactly the texts that occur in it.
* `front_eq_of_append_delimiter`: what stands in front of a delimiter.
* `digitsValue?_ofNat`: a numeral is read back as the number that it was written for.
-/

namespace Shortfall.Text

theorem occursIn_iff (needle text : Text) : needle.occursIn text = true ↔ needle <:+: text := by
  induction text with
  | nil => simp [occursIn]
  | cons byte rest ih =>
      rw [occursIn, Bool.or_eq_true, List.isPrefixOf_iff_prefix, ih, List.infix_cons_iff]

/-! ## Delimiters -/

section Delimiters

variable {first : UInt8} {word other front back rest behind : Text}

/-- Between two delimiters of which one begins a text, there is nothing or the whole of it. -/
theorem eq_nil_or_starts_with_delimiter (hfirst : first ∉ word)
    (h : first :: word ++ rest = front ++ first :: behind) :
    front = [] ∨ first :: word <+: front := by
  cases front with
  | nil => exact .inl rfl
  | cons byte front =>
      right
      simp only [List.cons_append, List.cons.injEq] at h
      obtain ⟨rfl, htails⟩ := h
      rcases List.append_eq_append_iff.mp htails with ⟨more, hfront, _⟩ | ⟨more, hword, hmore⟩
      · exact ⟨more, by rw [hfront, List.cons_append]⟩
      · cases more with
        | nil => exact ⟨[], by simp [hword]⟩
        | cons head more =>
            -- The second delimiter would begin inside the first one.
            have hhead : first = head := by simpa using (List.cons.inj hmore).1
            exact absurd (hword ▸ by simp [hhead]) hfirst

/-- A delimiter whose first byte does not occur in a lead occurs behind the lead or not at all. -/
theorem occurs_behind_lead {lead text : Text} (hlead : first ∉ lead)
    (h : first :: word <:+: lead ++ text) : first :: word <:+: text := by
  rcases List.infix_append_iff.mp h with
    hinside | hbehind | ⟨start, remainder, hsplit, hstart, hremainder⟩
  · exact absurd (hinside.subset List.mem_cons_self) hlead
  · exact hbehind
  · cases start with
    | nil => exact hsplit ▸ hremainder.isInfix
    | cons byte start =>
        obtain ⟨rfl, _⟩ := List.cons.inj hsplit
        exact absurd (hstart.subset List.mem_cons_self) hlead

/-- **A delimiter cuts a text in one place.** Two delimiters with the same first byte, each in a
text behind a front in which the other one does not occur, stand in the same place. -/
theorem front_eq_of_append_delimiter (hword : first ∉ word) (hother : first ∉ other)
    (h : front ++ (first :: word ++ rest) = back ++ (first :: other ++ behind))
    (hfront : ¬first :: other <:+: front) (hback : ¬first :: word <:+: back) : front = back := by
  rcases List.append_eq_append_iff.mp h with ⟨more, hmore, hrest⟩ | ⟨more, hmore, hrest⟩
  · rcases eq_nil_or_starts_with_delimiter hword hrest with rfl | hstarts
    · rw [hmore, List.append_nil]
    · exact absurd (hmore ▸ hstarts.isInfix.trans (List.suffix_append front more).isInfix) hback
  · rcases eq_nil_or_starts_with_delimiter hother hrest with rfl | hstarts
    · rw [hmore, List.append_nil]
    · exact absurd (hmore ▸ hstarts.isInfix.trans (List.suffix_append back more).isInfix) hfront

/-- A byte that occurs in neither front cuts both texts in one place. -/
theorem append_cons_inj (hfront : first ∉ front) (hback : first ∉ back)
    (h : front ++ first :: rest = back ++ first :: behind) : front = back ∧ rest = behind := by
  have notInfix : ∀ text : Text, first ∉ text → ¬[first] <:+: text := by
    intro text hmem hoccurs
    exact hmem (hoccurs.subset (List.mem_singleton.mpr rfl))
  have hsame : front = back :=
    front_eq_of_append_delimiter (List.not_mem_nil (a := first)) (List.not_mem_nil (a := first)) h
      (notInfix front hfront) (notInfix back hback)
  subst hsame
  exact ⟨rfl, by simpa using h⟩

end Delimiters

/-! ## Numerals -/

theorem ofChars_ascii {chars : List Char} (h : ∀ c ∈ chars, c.toNat < 128) :
    ofChars chars = chars.map fun c => UInt8.ofNat c.toNat := by
  induction chars with
  | nil => rfl
  | cons c rest ih =>
      have hc : c.val.toNat ≤ 127 := Nat.le_of_lt_succ (h c List.mem_cons_self)
      have hbyte : String.utf8EncodeChar c = [UInt8.ofNat c.toNat] := by
        rw [String.utf8EncodeChar, if_pos hc]
        rfl
      have hrest := ih fun d hd => h d (List.mem_cons_of_mem c hd)
      rw [List.map_cons, ← hrest, ofChars, List.flatMap_cons, hbyte]
      rfl

theorem toNat_bounds_of_mem_toDigits {n : Nat} {c : Char} (h : c ∈ Nat.toDigits 10 n) :
    48 ≤ c.toNat ∧ c.toNat ≤ 57 := by
  have hdigit : c.isDigit = true := Nat.isDigit_of_mem_toDigits (by decide) (by decide) h
  simp only [Char.isDigit, Bool.and_eq_true, decide_eq_true_eq] at hdigit
  exact ⟨UInt32.le_iff_toNat_le.mp hdigit.1, UInt32.le_iff_toNat_le.mp hdigit.2⟩

theorem ofNat_eq_map (n : Nat) :
    ofNat n = (Nat.toDigits 10 n).map fun c => UInt8.ofNat c.toNat := by
  apply ofChars_ascii
  intro c hc
  have hbounds := toNat_bounds_of_mem_toDigits hc
  omega

private theorem toNat_of_mem_toDigits {n : Nat} {c : Char} (h : c ∈ Nat.toDigits 10 n) :
    (UInt8.ofNat c.toNat).toNat = c.toNat := by
  have hbounds := toNat_bounds_of_mem_toDigits h
  rw [UInt8.toNat_ofNat']
  omega

theorem isDigit_of_mem_ofNat {n : Nat} {byte : UInt8} (h : byte ∈ ofNat n) :
    isDigit byte = true := by
  rw [ofNat_eq_map] at h
  obtain ⟨c, hc, rfl⟩ := List.mem_map.mp h
  have hbounds := toNat_bounds_of_mem_toDigits hc
  simp only [isDigit, Bool.and_eq_true, decide_eq_true_eq, UInt8.le_iff_toNat_le,
    toNat_of_mem_toDigits hc]
  exact hbounds

theorem ofNat_ne_nil (n : Nat) : ofNat n ≠ [] := by
  rw [ofNat_eq_map, Ne, List.map_eq_nil_iff]
  exact Nat.toDigits_ne_nil

theorem digitsValue?_of_ne_nil {digits : Text} (h : digits ≠ [])
    (hdigits : ∀ byte ∈ digits, isDigit byte = true) :
    digitsValue? digits =
      some (digits.foldl (fun value digit => value * 10 + (digit.toNat - 0x30)) 0) := by
  cases digits with
  | nil => exact absurd rfl h
  | cons byte rest => rw [digitsValue?, if_pos (List.all_eq_true.mpr hdigits)]; exact h

theorem digitsValue?_ofNat (n : Nat) : digitsValue? (ofNat n) = some n := by
  rw [digitsValue?_of_ne_nil (ofNat_ne_nil n) fun _ => isDigit_of_mem_ofNat, ofNat_eq_map,
    List.foldl_map]
  have hfold : (Nat.toDigits 10 n).foldl
      (fun value c => value * 10 + ((UInt8.ofNat c.toNat).toNat - 0x30)) 0 =
      Nat.ofDigitChars 10 (Nat.toDigits 10 n) 0 := by
    rw [Nat.ofDigitChars_eq_foldl]
    apply List.foldl_ext
    intro value c hc
    rw [toNat_of_mem_toDigits hc, Nat.mul_comm]
    rfl
  rw [hfold, Nat.ofDigitChars_ten_toDigits]

theorem ofNat_injective : Function.Injective ofNat := by
  intro m n h
  have hvalues : some m = some n := by
    rw [← digitsValue?_ofNat m, ← digitsValue?_ofNat n, h]
  exact Option.some.inj hvalues

end Shortfall.Text

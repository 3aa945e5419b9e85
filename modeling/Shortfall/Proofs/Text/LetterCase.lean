import Shortfall.Text.Blank
import Shortfall.Text.Case

/-!
# Comparison without regard to case, and change of case

Two ways of reading a word in any case are in use: compare without regard to case, or turn into
upper case and compare. They agree on words of the capital letters A to Z without K. The letter K
is left out: the Kelvin sign matches it, and is its own upper case.

Which characters a case table takes into a range is seen from the ends of its rows, since each row
moves all that it covers by the same distance (`shiftBy_cases`). Only one row for lower case
reaches the small letters with more than a single character. Both tables are sound (`IsSound`): they
lead to characters that they do not cover, and leave white space alone. So no character has a small
letter as its upper case.

## Main results

* `upper_eq_of_equalFold`: what matches a word of those capitals has it as its upper case.
* `upperChar_upperChar`, `lowerChar_lowerChar`: a change of case is made once.
* `isBlank_of_isBlank_upperChar`: upper case makes no white space.
* `lowerChar_of_isBlank`: white space has no lower case of its own.
-/

namespace Shortfall.Text

/-! ## What a case table takes into a range -/

section Tables

variable {rows special : List CaseRow} {point target low high : Nat}

/-- A code point stays in its place, or is moved by a row that covers it. -/
theorem shiftBy_eq_or_moved (rows : List CaseRow) (point : Nat) :
    shiftBy rows point = point ∨ ∃ row ∈ rows, row.covers point = true ∧
      shiftBy rows point = ((point : Int) + row.shift).toNat := by
  cases hfind : rows.find? (·.covers point) with
  | none => exact .inl (by rw [shiftBy, hfind])
  | some row =>
      have hcovers : row.covers point = true := by simpa using List.find?_some hfind
      exact .inr ⟨row, List.mem_of_find?_eq_some hfind, hcovers, by rw [shiftBy, hfind]⟩

/-- A code point that goes to one between `low` and `high` stays in its place, or is moved by one of
the rows that reach that range. -/
theorem shiftBy_cases
    (hapart : ∀ row ∈ rows, row ∈ special ∨ (row.last : Int) + row.shift < low ∨
      (high : Int) < row.first + row.shift)
    (h : shiftBy rows point = target) (hpos : 0 < target) (hlow : low ≤ target)
    (hhigh : target ≤ high) :
    point = target ∨
      ∃ row ∈ special, row.covers point = true ∧ (point : Int) + row.shift = target := by
  rcases shiftBy_eq_or_moved rows point with hsame | ⟨row, hrow, hcovers, hmoved⟩
  · exact .inl (hsame.symm.trans h)
  · have htarget : (point : Int) + row.shift = target := by omega
    refine .inr ⟨row, ?_, hcovers, htarget⟩
    simp only [CaseRow.covers, Bool.and_eq_true, decide_eq_true_eq] at hcovers
    rcases hapart row hrow with hspecial | hbelow | habove
    · exact hspecial
    · omega
    · omega

private theorem shiftBy_cons_of_covers {row : CaseRow} (h : row.covers point = true) :
    shiftBy (row :: rows) point = ((point : Int) + row.shift).toNat := by
  rw [shiftBy, List.find?_cons, h]

private theorem shiftBy_of_lt (h : ∀ row ∈ rows, point < row.first) :
    shiftBy rows point = point := by
  have hfind : rows.find? (·.covers point) = none := by
    rw [List.find?_eq_none]
    intro row hrow hcovers
    have hlt := h row hrow
    simp only [CaseRow.covers, Bool.and_eq_true, decide_eq_true_eq] at hcovers
    omega
  rw [shiftBy, hfind]

end Tables

/-! ## Sound tables

What a table leads to is compared with what it covers, and both with white space. This is a question
about every two rows, and is decided faster for all rows at once: a set of code points is a number
with one bit for each of them, and two such sets are compared in one step. -/

/-- The bits of a set of code points. -/
def bitsOf (points : List Nat) : Nat := points.foldr (fun point bits => 1 <<< point ||| bits) 0

private theorem testBit_bitsOf {points : List Nat} {point : Nat} :
    (bitsOf points).testBit point = true ↔ point ∈ points := by
  induction points with
  | nil => simp [bitsOf]
  | cons first points ih =>
      rw [bitsOf, List.foldr_cons, ← bitsOf, Nat.testBit_or, Bool.or_eq_true, ih, List.mem_cons,
        Nat.one_shiftLeft, Nat.testBit_two_pow, decide_eq_true_eq, eq_comm]

/-- Sets without a common bit have no common code point. -/
theorem not_mem_of_bitsOf_land {points others : List Nat} {point : Nat}
    (h : bitsOf points &&& bitsOf others = 0) (hpoint : point ∈ points) : point ∉ others := by
  intro hother
  have hboth : (bitsOf points &&& bitsOf others).testBit point = true := by
    rw [Nat.testBit_and, testBit_bitsOf.mpr hpoint, testBit_bitsOf.mpr hother, Bool.and_self]
  rw [h, Nat.zero_testBit] at hboth
  exact Bool.false_ne_true hboth

/-- Where white space stands among the code points. -/
def blankRanges : List (Nat × Nat) := [
  (9, 13), (0x20, 0x20), (0x85, 0x85), (0xA0, 0xA0), (0x1680, 0x1680), (0x2000, 0x200A),
  (0x2028, 0x2029), (0x202F, 0x202F), (0x205F, 0x205F), (0x3000, 0x3000)]

def blankPoints : List Nat :=
  blankRanges.flatMap fun range => List.range' range.1 (range.2 + 1 - range.1)

theorem isBlank_iff {c : Char} : isBlank c = true ↔ c.toNat ∈ blankPoints := by
  simp only [isBlank, blankPoints, blankRanges, List.mem_flatMap, List.mem_range'_1,
    Bool.or_eq_true, Bool.and_eq_true, decide_eq_true_eq, beq_iff_eq, List.mem_cons,
    List.not_mem_nil, or_false, exists_eq_or_imp, exists_eq_left]
  omega

namespace CaseRow

/-- The code points that a row covers. -/
def points (row : CaseRow) : List Nat :=
  (List.range ((row.last - row.first) / row.step + 1)).map fun i => row.first + row.step * i

/-- The code points that a row leads to. -/
def targets (row : CaseRow) : List Nat :=
  row.points.map fun point : Nat => ((point : Int) + row.shift).toNat

theorem mem_points {row : CaseRow} {point : Nat} (h : row.covers point = true) :
    point ∈ row.points := by
  simp only [covers, Bool.and_eq_true, decide_eq_true_eq, beq_iff_eq] at h
  obtain ⟨⟨hfirst, hlast⟩, hstep⟩ := h
  refine List.mem_map.mpr ⟨(point - row.first) / row.step, ?_, ?_⟩
  · have hle : (point - row.first) / row.step ≤ (row.last - row.first) / row.step :=
      Nat.div_le_div_right (by omega)
    exact List.mem_range.mpr (by omega)
  · have hsplit := Nat.div_add_mod (point - row.first) row.step
    omega

end CaseRow

def covered (rows : List CaseRow) : List Nat := rows.flatMap CaseRow.points

def reached (rows : List CaseRow) : List Nat := rows.flatMap CaseRow.targets

theorem shiftBy_eq_or_mem (rows : List CaseRow) (point : Nat) :
    shiftBy rows point = point ∨ point ∈ covered rows ∧ shiftBy rows point ∈ reached rows := by
  rcases shiftBy_eq_or_moved rows point with hsame | ⟨row, hrow, hcovers, hmoved⟩
  · exact .inl hsame
  · have hpoint := CaseRow.mem_points hcovers
    exact .inr ⟨List.mem_flatMap.mpr ⟨row, hrow, hpoint⟩,
      List.mem_flatMap.mpr ⟨row, hrow, List.mem_map.mpr ⟨point, hpoint, hmoved.symm⟩⟩⟩

/-- A case table is sound if its rows lead to characters, and if no two of what it covers, what it
leads to and white space have a code point in common. -/
structure IsSound (rows : List CaseRow) : Prop where
  leads : ∀ row ∈ rows, 0 < (row.first : Int) + row.shift ∧
    ((row.last : Int) + row.shift < 0xD800 ∨ 0xDFFF < (row.first : Int) + row.shift ∧
      (row.last : Int) + row.shift < 0x110000)
  apart : bitsOf (covered rows) &&& bitsOf (reached rows) = 0 ∧
    bitsOf (covered rows) &&& bitsOf blankPoints = 0 ∧
      bitsOf (reached rows) &&& bitsOf blankPoints = 0

theorem isSound_lowerRows : IsSound lowerRows where
  leads := by decide +kernel
  apart := by decide +kernel

theorem isSound_upperRows : IsSound upperRows where
  leads := by decide +kernel
  apart := by decide +kernel

theorem toNat_ofNat_of_isValidChar {n : Nat} (h : n.isValidChar) : (Char.ofNat n).toNat = n := by
  rw [Char.ofNat, dif_pos h]
  rfl

namespace IsSound

variable {rows : List CaseRow}

/-- A sound table leads from characters to characters. -/
theorem toNat_ofNat_shiftBy (hrows : IsSound rows) (c : Char) :
    (Char.ofNat (shiftBy rows c.toNat)).toNat = shiftBy rows c.toNat := by
  have hvalid : (shiftBy rows c.toNat).isValidChar := by
    rcases shiftBy_eq_or_moved rows c.toNat with hsame | ⟨row, hrow, hcovers, hmoved⟩
    · rw [hsame]
      exact c.valid
    · obtain ⟨hpos, htarget⟩ := hrows.leads row hrow
      simp only [CaseRow.covers, Bool.and_eq_true, decide_eq_true_eq] at hcovers
      rw [hmoved, Nat.isValidChar]
      omega
  exact toNat_ofNat_of_isValidChar hvalid

theorem shiftBy_shiftBy (hrows : IsSound rows) (point : Nat) :
    shiftBy rows (shiftBy rows point) = shiftBy rows point := by
  rcases shiftBy_eq_or_mem rows point with hsame | ⟨_, hreached⟩
  · rw [hsame, hsame]
  · rcases shiftBy_eq_or_mem rows (shiftBy rows point) with hstays | ⟨hcovered, _⟩
    · exact hstays
    · exact absurd hreached (not_mem_of_bitsOf_land hrows.apart.1 hcovered)

private theorem shiftBy_of_mem_blankPoints (hrows : IsSound rows) {point : Nat}
    (h : point ∈ blankPoints) : shiftBy rows point = point := by
  rcases shiftBy_eq_or_mem rows point with hsame | ⟨hcovered, _⟩
  · exact hsame
  · exact absurd h (not_mem_of_bitsOf_land hrows.apart.2.1 hcovered)

theorem mem_blankPoints (hrows : IsSound rows) {point : Nat}
    (h : shiftBy rows point ∈ blankPoints) : point ∈ blankPoints := by
  rcases shiftBy_eq_or_mem rows point with hsame | ⟨_, hreached⟩
  · exact hsame ▸ h
  · exact absurd h (not_mem_of_bitsOf_land hrows.apart.2.2 hreached)

end IsSound

/-! ## Upper and lower case -/

theorem toNat_upperChar (c : Char) : (upperChar c).toNat = shiftBy upperRows c.toNat :=
  IsSound.toNat_ofNat_shiftBy isSound_upperRows c

theorem toNat_lowerChar (c : Char) : (lowerChar c).toNat = shiftBy lowerRows c.toNat :=
  IsSound.toNat_ofNat_shiftBy isSound_lowerRows c

theorem upperChar_upperChar (c : Char) : upperChar (upperChar c) = upperChar c := by
  rw [upperChar, toNat_upperChar, IsSound.shiftBy_shiftBy isSound_upperRows, ← upperChar]

theorem lowerChar_lowerChar (c : Char) : lowerChar (lowerChar c) = lowerChar c := by
  rw [lowerChar, toNat_lowerChar, IsSound.shiftBy_shiftBy isSound_lowerRows, ← lowerChar]

/-- Upper case makes no white space. -/
theorem isBlank_of_isBlank_upperChar {c : Char} (h : isBlank (upperChar c) = true) :
    isBlank c = true := by
  rw [isBlank_iff, toNat_upperChar] at h
  exact isBlank_iff.mpr (IsSound.mem_blankPoints isSound_upperRows h)

/-- White space has no lower case of its own. -/
theorem lowerChar_of_isBlank {c : Char} (h : isBlank c = true) : lowerChar c = c := by
  have hsame := IsSound.shiftBy_of_mem_blankPoints isSound_lowerRows (isBlank_iff.mp h)
  rw [lowerChar, hsame, Char.ofNat_toNat]

/-- A character is its own lower case, or a row of the table leads to that. -/
theorem lowerChar_cases (c : Char) :
    lowerChar c = c ∨ ∃ row ∈ lowerRows, row.covers c.toNat = true ∧
      (lowerChar c).toNat = ((c.toNat : Int) + row.shift).toNat := by
  rw [toNat_lowerChar]
  refine (shiftBy_eq_or_moved lowerRows c.toNat).imp_left fun hsame => ?_
  rw [lowerChar, hsame, Char.ofNat_toNat]

/-! ## The Latin letters

They are the first row of either table. -/

private theorem shiftBy_upperRows_small {small : Nat} (hlow : 0x61 ≤ small) (hhigh : small ≤ 0x7A) :
    shiftBy upperRows small = small - 32 := by
  have hcovers : CaseRow.covers ⟨0x61, 0x7A, 1, -32⟩ small = true := by
    simp [CaseRow.covers, Nat.mod_one, hlow, hhigh]
  have hrows : upperRows = ⟨0x61, 0x7A, 1, -32⟩ :: upperRows.tail := rfl
  rw [hrows, shiftBy_cons_of_covers hcovers]
  show ((small : Int) + -32).toNat = small - 32
  omega

/-- No character has a small letter as its upper case, since that letter has another one. -/
theorem shiftBy_upperRows_ne {point small : Nat} (hlow : 0x61 ≤ small) (hhigh : small ≤ 0x7A) :
    shiftBy upperRows point ≠ small := by
  intro h
  have honce := IsSound.shiftBy_shiftBy isSound_upperRows point
  rw [h, shiftBy_upperRows_small hlow hhigh] at honce
  omega

/-- The capitals are the upper case of the small letters, so they are their own. -/
theorem shiftBy_upperRows_capital {capital : Nat} (hlow : 0x41 ≤ capital)
    (hhigh : capital ≤ 0x5A) : shiftBy upperRows capital = capital := by
  have hsmall : shiftBy upperRows (capital + 32) = capital :=
    shiftBy_upperRows_small (by omega) (by omega)
  have honce := IsSound.shiftBy_shiftBy isSound_upperRows (capital + 32)
  rwa [hsmall] at honce

private theorem eq_of_shiftBy_upperRows_dotted {point : Nat} (h : shiftBy upperRows point = 0x130) :
    point = 0x130 := by
  have hapart : ∀ row ∈ upperRows, row ∈ ([] : List CaseRow) ∨
      (row.last : Int) + row.shift < (0x130 : Nat) ∨
        ((0x130 : Nat) : Int) < row.first + row.shift := by decide +kernel
  rcases shiftBy_cases hapart h (by omega) (by omega) (by omega) with hsame | ⟨row, hrow, _⟩
  · exact hsame
  · cases hrow

/-- The row of the Latin letters is the only one for lower case that begins below 128. -/
theorem shiftBy_lowerRows_of_lt {point : Nat} (h : point < 128) :
    shiftBy lowerRows point = if 0x41 ≤ point ∧ point ≤ 0x5A then point + 32 else point := by
  have hfar : ∀ row ∈ lowerRows.tail, 128 ≤ row.first := by decide +kernel
  have hcovers : CaseRow.covers ⟨0x41, 0x5A, 1, 32⟩ point = true ↔ 0x41 ≤ point ∧ point ≤ 0x5A := by
    simp [CaseRow.covers, Nat.mod_one]
  have hrows : lowerRows = ⟨0x41, 0x5A, 1, 32⟩ :: lowerRows.tail := rfl
  split
  · next hcapital =>
      rw [hrows, shiftBy_cons_of_covers (hcovers.mpr hcapital)]
      show ((point : Int) + 32).toNat = point + 32
      omega
  · next hother =>
      rw [hrows, shiftBy, List.find?_cons, Bool.eq_false_iff.mpr (mt hcovers.mp hother)]
      exact shiftBy_of_lt fun row hrow => Nat.lt_of_lt_of_le h (hfar row hrow)

/-- The small letters are the lower case of the two cases of a letter, of the dotted capital I and
of the Kelvin sign. -/
theorem of_shiftBy_lowerRows {point small : Nat} (h : shiftBy lowerRows point = small)
    (hlow : 0x61 ≤ small) (hhigh : small ≤ 0x7A) :
    point = small ∨ point + 32 = small ∨ point = 0x130 ∨ small = 0x6B ∧ point ≤ 0x212A := by
  have hapart : ∀ row ∈ lowerRows,
      row ∈ [⟨0x41, 0x5A, 1, 32⟩, ⟨0x130, 0x130, 1, -199⟩, ⟨0x212A, 0x212A, 1, -8383⟩] ∨
        (row.last : Int) + row.shift < (0x61 : Nat) ∨
          ((0x7A : Nat) : Int) < row.first + row.shift := by decide +kernel
  rcases shiftBy_cases hapart h (by omega) hlow hhigh with hsame | ⟨row, hrow, hcovers, hmoved⟩
  · exact .inl hsame
  · simp only [List.mem_cons, List.not_mem_nil, or_false] at hrow
    simp only [CaseRow.covers, Bool.and_eq_true, decide_eq_true_eq] at hcovers
    rcases hrow with rfl | rfl | rfl <;> simp only at hmoved hcovers <;> omega

/-! ## Capital letters -/

/-- The letters A to Z without K. -/
def isPlainCapital (c : Char) : Bool := 0x41 ≤ c.toNat && c.toNat ≤ 0x5A && c.toNat ≠ 0x4B

theorem isPlainCapital_iff {c : Char} :
    isPlainCapital c = true ↔ 0x41 ≤ c.toNat ∧ c.toNat ≤ 0x5A ∧ c.toNat ≠ 0x4B := by
  simp only [isPlainCapital, Bool.and_eq_true, decide_eq_true_eq, and_assoc]

/-- The key of a character, as far as it can be that of a letter. -/
theorem foldKey_cases (c : Char) :
    (c ≠ 'İ' ∧ foldKey c = lowerChar (upperChar c)) ∨
      0x7A < c.toNat ∧ 0x7A < (foldKey c).toNat := by
  have hpartners : ∀ pair ∈ foldPartners, 0x7A < pair.1 ∧ 0x7A < (Char.ofNat pair.2).toNat := by
    decide
  by_cases hi : c = 'İ' ∨ c = 'ı'
  · right
    rcases hi with rfl | rfl <;> decide
  · have hif : (c = 'İ' || c = 'ı') = false := by simpa using hi
    rw [foldKey, hif, if_neg Bool.false_ne_true]
    split
    case h_1 partner hlookup =>
      right
      obtain ⟨front, back, hpair, _⟩ := List.lookup_eq_some_iff.mp hlookup
      exact hpartners (c.toNat, partner) (by simp [hpair])
    case h_2 => exact .inl ⟨fun hdotted => hi (.inl hdotted), rfl⟩

private theorem toNat_foldKey_capital {capital : Char} (h : isPlainCapital capital = true) :
    (foldKey capital).toNat = capital.toNat + 32 := by
  obtain ⟨hlow, hhigh, _⟩ := isPlainCapital_iff.mp h
  rcases foldKey_cases capital with ⟨_, hkey⟩ | ⟨hfar, _⟩
  · rw [hkey, toNat_lowerChar, toNat_upperChar, shiftBy_upperRows_capital hlow hhigh,
      shiftBy_lowerRows_of_lt (by omega), if_pos ⟨hlow, hhigh⟩]
  · omega

/-- What matches a capital without regard to case has it as its upper case. -/
theorem upperChar_eq_of_foldKey_eq {c capital : Char} (hcapital : isPlainCapital capital = true)
    (h : foldKey c = foldKey capital) : upperChar c = capital := by
  have hsmall : (foldKey c).toNat = capital.toNat + 32 := by
    rw [h, toNat_foldKey_capital hcapital]
  obtain ⟨hlow, hhigh, hnotK⟩ := isPlainCapital_iff.mp hcapital
  have hupper := toNat_upperChar c
  rcases foldKey_cases c with ⟨hdotted, hkey⟩ | ⟨_, hfar⟩
  · have hshift : shiftBy lowerRows (upperChar c).toNat = capital.toNat + 32 := by
      rw [← toNat_lowerChar, ← hkey, hsmall]
    rcases of_shiftBy_lowerRows hshift (by omega) (by omega) with hsame | hcase | hi | hk
    · exact absurd (hupper.symm.trans hsame) (shiftBy_upperRows_ne (by omega) (by omega))
    · exact Char.toNat_inj.mp (by omega)
    · have hc := eq_of_shiftBy_upperRows_dotted (hupper.symm.trans hi)
      exact absurd (Char.toNat_inj.mp hc) hdotted
    · omega
  · omega

/-! ## Words -/

private theorem map_upperChar_of_map_foldKey {chars letters : List Char}
    (hletters : ∀ letter ∈ letters, isPlainCapital letter = true)
    (h : chars.map foldKey = letters.map foldKey) : chars.map upperChar = letters := by
  induction chars generalizing letters with
  | nil => exact (List.map_eq_nil_iff.mp h.symm).symm
  | cons c rest ih =>
      cases letters with
      | nil => cases h
      | cons letter more =>
          obtain ⟨hfirst, hrest⟩ := List.cons.inj h
          have hcapital := hletters letter List.mem_cons_self
          have hmore := ih
            (fun other hother => hletters other (List.mem_cons_of_mem letter hother)) hrest
          rw [List.map_cons, upperChar_eq_of_foldKey_eq hcapital hfirst, hmore]

/-- **A text that matches a word of plain capitals has it as its upper case.** -/
theorem upper_eq_of_equalFold {text word : Text}
    (hword : word.shown.all isPlainCapital = true) (h : equalFold text word = true) :
    text.upper = word.mend := by
  have hletters : ∀ letter ∈ word.shown, isPlainCapital letter = true := List.all_eq_true.mp hword
  have hkeys : text.shown.map foldKey = word.shown.map foldKey := eq_of_beq h
  rw [upper, map_upperChar_of_map_foldKey hletters hkeys, mend]

end Shortfall.Text

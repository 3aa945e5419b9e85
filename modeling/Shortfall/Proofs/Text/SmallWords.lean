import Shortfall.Proofs.Text.Characters
import Shortfall.Proofs.Text.Delimiters
import Shortfall.Proofs.Text.LetterCase

/-!
# Words of small letters in any case

Names are compared with a word of small letters by taking the case out of them, either of all
letters or of the Latin ones only. A name that gives such a word has nothing in it that had to be
replaced: what replaces a stray byte has no small Latin letter as its lower case.

## Main results

* `not_mem_of_lower_eq`: names that give a word hold no replacement character.
* `lowerAscii_mend_eq_iff`: replacing stray bytes gives no name that was none before.
* `lower_eq_of_lowerAscii_eq`: the Latin letters in any case are among all letters in any case.
-/

namespace Shortfall.Text

/-- Whether a text has no bytes but the letters a to z. -/
def isSmallWord (word : Text) : Bool := word.all fun byte => 0x61 ≤ byte && byte ≤ 0x7A

theorem isSmallWord_iff {word : Text} :
    word.isSmallWord = true ↔ ∀ byte ∈ word, 0x61 ≤ byte.toNat ∧ byte.toNat ≤ 0x7A := by
  simp [isSmallWord, UInt8.le_iff_toNat_le]

variable {text word : Text}

/-! ## All letters -/

private theorem le_of_mem_shown_of_lower_eq (hword : word.isSmallWord = true)
    (h : text.lower = word) {c : Char} (hc : c ∈ text.shown) : c.toNat ≤ 0x212A := by
  have hsmall : ∀ byte ∈ String.utf8EncodeChar (lowerChar c),
      0x61 ≤ byte.toNat ∧ byte.toNat ≤ 0x7A := by
    intro byte hbyte
    apply isSmallWord_iff.mp hword
    rw [← h]
    exact List.mem_flatMap.mpr ⟨lowerChar c, List.mem_map_of_mem hc, hbyte⟩
  rcases encode_cases (lowerChar c) with ⟨hascii, hencode⟩ | ⟨_, hbytes⟩
  · have hbounds := hsmall (UInt8.ofNat (lowerChar c).toNat) (by rw [hencode]; simp)
    rw [UInt8.toNat_ofNat', Nat.mod_eq_of_lt (by omega)] at hbounds
    rcases of_shiftBy_lowerRows (toNat_lowerChar c).symm hbounds.1 hbounds.2 with h | h | h | h <;>
      omega
  · obtain ⟨byte, hbyte⟩ := List.exists_mem_of_length_pos
      (String.length_utf8EncodeChar (lowerChar c) ▸ Char.utf8Size_pos (lowerChar c))
    have hlarge := hbytes byte hbyte
    have hbounds := hsmall byte hbyte
    omega

private theorem le_of_mem_encode {c : Char} (h : (0xEF : UInt8) ∈ String.utf8EncodeChar c) :
    0xF000 ≤ c.toNat := by
  rw [String.utf8EncodeChar] at h
  rw [Char.toNat]
  generalize c.val.toNat = point at h
  -- The byte starts a character of three bytes that has all of its first bits set.
  split at h
  · simp [← UInt8.toNat_inj, UInt8.toNat_ofNat'] at h
    omega
  split at h
  · simp [← UInt8.toNat_inj, UInt8.toNat_ofNat'] at h
    omega
  split at h
  · simp [← UInt8.toNat_inj, UInt8.toNat_ofNat'] at h
    omega
  · omega

private theorem exists_mem_shown_of_mem (h : (0xEF : UInt8) ∈ text) :
    ∃ c ∈ text.shown, 0xF000 ≤ c.toNat := by
  rw [← bytes_pieces text, ofPieces, List.mem_flatMap] at h
  obtain ⟨piece, hpiece, hbyte⟩ := h
  refine ⟨piece.shown, List.mem_map_of_mem hpiece, ?_⟩
  cases piece with
  | char c => exact le_of_mem_encode hbyte
  | stray byte => exact (by decide : 0xF000 ≤ replacement.toNat)

theorem not_mem_of_lower_eq (hword : word.isSmallWord = true) (h : text.lower = word) :
    (0xEF : UInt8) ∉ text := by
  intro hmem
  obtain ⟨c, hc, hlarge⟩ := exists_mem_shown_of_mem hmem
  have hsmall := le_of_mem_shown_of_lower_eq hword h hc
  omega

theorem lower_mend (text : Text) : text.mend.lower = text.lower := by
  rw [lower, shown_mend, ← lower]

/-! ## Latin letters -/

theorem lt_of_lowerAscii_eq (hword : word.isSmallWord = true) (h : text.lowerAscii = word) :
    ∀ byte ∈ text, byte.toNat < 128 := by
  intro byte hbyte
  have hbounds := isSmallWord_iff.mp hword (lowerByte byte) (h ▸ List.mem_map_of_mem hbyte)
  simp only [lowerByte] at hbounds
  split at hbounds
  · next hcapital =>
      simp only [Bool.and_eq_true, decide_eq_true_eq, UInt8.le_iff_toNat_le] at hcapital
      exact Nat.lt_of_le_of_lt hcapital.2 (by decide)
  · omega

theorem eq_ofChars_of_lt (h : ∀ byte ∈ text, byte.toNat < 128) :
    text = ofChars (text.map fun byte => Char.ofNat byte.toNat) := by
  have hpoint : ∀ byte ∈ text, (Char.ofNat byte.toNat).toNat = byte.toNat := by
    intro byte hbyte
    have hlt := h byte hbyte
    exact toNat_ofNat_of_isValidChar (.inl (by omega))
  rw [ofChars_ascii, List.map_map]
  · have hsame : ∀ byte ∈ text, UInt8.ofNat (Char.ofNat byte.toNat).toNat = byte := by
      intro byte hbyte
      rw [hpoint byte hbyte, UInt8.ofNat_toNat]
    exact ((List.map_congr_left hsame).trans (List.map_id' text)).symm
  · intro c hc
    obtain ⟨byte, hbyte, rfl⟩ := List.mem_map.mp hc
    rw [hpoint byte hbyte]
    exact h byte hbyte

private theorem mend_eq_self_of_lt (h : ∀ byte ∈ text, byte.toNat < 128) : text.mend = text := by
  rw [eq_ofChars_of_lt h, mend, shown_ofChars]

private theorem eq_of_mend_lt (h : ∀ byte ∈ text.mend, byte.toNat < 128) : text.mend = text := by
  have hpieces : (pieces text).any Piece.isStray = false := by
    rw [List.any_eq_false]
    intro piece hpiece hstray
    cases piece with
    | char c => cases hstray
    | stray byte =>
        have hmem : (0xEF : UInt8) ∈ text.mend :=
          List.mem_flatMap.mpr ⟨replacement, List.mem_map_of_mem hpiece, by decide⟩
        exact absurd (h _ hmem) (by decide)
  have hformed : text.isWellFormed = true := by rw [isWellFormed, hpieces]; rfl
  obtain ⟨chars, rfl⟩ := isWellFormed_iff.mp hformed
  rw [mend, shown_ofChars]

theorem lowerAscii_mend_eq_iff (hword : word.isSmallWord = true) :
    text.mend.lowerAscii = word ↔ text.lowerAscii = word := by
  constructor
  · intro h
    rwa [eq_of_mend_lt (lt_of_lowerAscii_eq hword h)] at h
  · intro h
    rwa [mend_eq_self_of_lt (lt_of_lowerAscii_eq hword h)]

theorem not_mem_of_lowerAscii_eq (hword : word.isSmallWord = true) (h : text.lowerAscii = word) :
    (0xEF : UInt8) ∉ text := by
  intro hmem
  exact absurd (lt_of_lowerAscii_eq hword h _ hmem) (by decide)

private theorem toNat_lowerByte (byte : UInt8) :
    (lowerByte byte).toNat =
      if 0x41 ≤ byte.toNat ∧ byte.toNat ≤ 0x5A then byte.toNat + 32 else byte.toNat := by
  have hcapital : (0x41 ≤ byte && byte ≤ 0x5A) = true ↔ 0x41 ≤ byte.toNat ∧ byte.toNat ≤ 0x5A := by
    simp [UInt8.le_iff_toNat_le]
  rw [lowerByte]
  simp only [hcapital]
  split
  · have hadd : (byte + 0x20).toNat = (byte.toNat + 32) % 256 := UInt8.toNat_add byte 0x20
    omega
  · rfl

theorem lower_eq_lowerAscii (h : ∀ byte ∈ text, byte.toNat < 128) :
    text.lower = text.lowerAscii := by
  have hbyte : ∀ byte ∈ text, shiftBy lowerRows byte.toNat = (lowerByte byte).toNat := by
    intro byte hmem
    rw [shiftBy_lowerRows_of_lt (h byte hmem), toNat_lowerByte]
  have hshown : text.shown = text.map fun byte => Char.ofNat byte.toNat := by
    rw [← shown_ofChars (text.map _), ← eq_ofChars_of_lt h]
  have hlower : ∀ byte ∈ text,
      lowerChar (Char.ofNat byte.toNat) = Char.ofNat (lowerByte byte).toNat := by
    intro byte hmem
    have hlt := h byte hmem
    rw [lowerChar, toNat_ofNat_of_isValidChar (.inl (by omega)), hbyte byte hmem]
  have hascii : ∀ byte ∈ text.lowerAscii, byte.toNat < 128 := by
    intro byte hmem
    obtain ⟨old, hold, rfl⟩ := List.mem_map.mp hmem
    have hlt := h old hold
    rw [toNat_lowerByte]
    split <;> omega
  calc text.lower
      = ofChars (text.map fun byte => lowerChar (Char.ofNat byte.toNat)) := by
        rw [lower, hshown, List.map_map]
        rfl
    _ = ofChars (text.map fun byte => Char.ofNat (lowerByte byte).toNat) := by
        rw [List.map_congr_left hlower]
    _ = ofChars (text.lowerAscii.map fun byte => Char.ofNat byte.toNat) := by
        rw [lowerAscii, List.map_map]
        rfl
    _ = text.lowerAscii := (eq_ofChars_of_lt hascii).symm

theorem lower_eq_of_lowerAscii_eq (hword : word.isSmallWord = true) (h : text.lowerAscii = word) :
    text.lower = word := by
  rw [lower_eq_lowerAscii (lt_of_lowerAscii_eq hword h), h]

theorem isSmallWord_lower (h : text.lowerAscii.isSmallWord = true) :
    text.lower.isSmallWord = true := by
  rwa [lower_eq_of_lowerAscii_eq h rfl]

end Shortfall.Text

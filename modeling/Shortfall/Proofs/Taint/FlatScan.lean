import Shortfall.Proofs.Collections
import Shortfall.Proofs.Taint.LevelOrder
import Shortfall.Proofs.Taint.Parentheses
import Shortfall.Proofs.Taint.Resolution

/-!
# Parentheses do not matter to a reading

`readSpan` treats a call specially: it looks for the closing parenthesis, reads the arguments as
an expression of their own and goes on behind the call. A text can then lose a name in many ways,
by an argument cut one byte short, by a call that is never closed, by a name that straddles the
end of the arguments.

The reference is a scanner that knows nothing of calls. `dottedNames` goes over the text once, one
byte at a time, and a parenthesis is to it a byte like any other that is in no name. Because such
a byte ends whatever is being scanned, the names of a text are those in front of it and those
behind it (`scan_append_break`); the rest is to see that the pieces `readSpan` cuts out are
separated by parentheses.

## Main results

* `scan_append_break`: a byte that is in no name splits a scan.
* `readSpan_eq_readPaths`: reading recursively is reading the names of a flat scan.
* `names_readPaths`, `level_readPaths`: which names those are, and the join of their levels.
-/

namespace Shortfall.Taint

/-! ## The flat scanner -/

/-- What a flat scan is in the middle of. -/
inductive Place where
  | outside
  | inNumber
  | inName (soFar : Text)

/-- The dotted names in a text, from left to right. A run of name bytes that starts with a digit
is a number and names nothing; a dot goes on with a name when a name follows it. -/
def scan : Place → Text → List Text
  | .outside, [] => []
  | .inNumber, [] => []
  | .inName soFar, [] => [soFar]
  | .outside, byte :: rest =>
      if Text.isDigit byte then scan .inNumber rest
      else if isNameStart byte then scan (.inName [byte]) rest
      else scan .outside rest
  | .inNumber, byte :: rest => scan (if isNamePart byte then .inNumber else .outside) rest
  | .inName soFar, byte :: rest =>
      if isNamePart byte || (byte = 0x2E && startsName rest) then
        scan (.inName (soFar ++ [byte])) rest
      else soFar :: scan .outside rest

def dottedNames (text : Text) : List Text := scan .outside text

/-- A byte that no name goes across. -/
def isBreak (byte : UInt8) : Bool := !isNamePart byte && byte ≠ 0x2E

private theorem isBreak_opening : isBreak opening = true := by decide

private theorem isBreak_closing : isBreak closing = true := by decide

private theorem isBreak_of_isSpaceOrTab {byte : UInt8} (h : isSpaceOrTab byte = true) :
    isBreak byte = true := by
  simp only [isSpaceOrTab, Bool.or_eq_true, decide_eq_true_eq] at h
  rcases h with rfl | rfl <;> decide

theorem scan_outside_cons_of_not_part {byte : UInt8} (h : isNamePart byte = false) (rest : Text) :
    scan .outside (byte :: rest) = scan .outside rest := by
  simp only [isNamePart, Bool.or_eq_false_iff] at h
  simp [scan, h.1, h.2]

/-- **A scan splits at a byte that is in no name.** -/
theorem scan_append_break {byte : UInt8} (hbreak : isBreak byte = true) (back : Text) :
    ∀ (front : Text) (place : Place),
      scan place (front ++ byte :: back) = scan place front ++ scan .outside back := by
  simp only [isBreak, Bool.and_eq_true, Bool.not_eq_true', decide_eq_true_eq] at hbreak
  obtain ⟨hpart, hdot⟩ := hbreak
  have hstart : isNameStart byte = false := by
    simp only [isNamePart, Bool.or_eq_false_iff] at hpart
    exact hpart.1
  intro front
  induction front with
  | nil =>
      intro place
      cases place with
      | outside => exact scan_outside_cons_of_not_part hpart back
      | inNumber => simp [scan, hpart]
      | inName soFar => simp [scan, hpart, hdot]
  | cons first front ih =>
      -- The one byte of lookahead, behind a dot, is either in `front` or the break itself.
      have hlook : startsName (front ++ byte :: back) = startsName front := by
        cases front with
        | nil => exact hstart
        | cons second front => rfl
      intro place
      cases place with
      | outside =>
          simp only [List.cons_append, scan]
          split
          · exact ih _
          · split <;> exact ih _
      | inNumber => exact ih _
      | inName soFar =>
          simp only [List.cons_append, scan, hlook]
          split
          · exact ih _
          · rw [ih, List.cons_append]

theorem dottedNames_append_break {byte : UInt8} (hbreak : isBreak byte = true)
    (front back : Text) :
    dottedNames (front ++ byte :: back) = dottedNames front ++ dottedNames back :=
  scan_append_break hbreak back front .outside

example : dottedNames "f(a.b, (1x, g (c.2" = ["f", "a.b", "g", "c"] := by decide

private theorem dottedNames_of_breaks {text : Text} (h : ∀ byte ∈ text, isBreak byte = true) :
    dottedNames text = [] := by
  induction text with
  | nil => rfl
  | cons byte rest ih =>
      have hsplit := dottedNames_append_break (h byte (by simp)) [] rest
      rw [List.nil_append] at hsplit
      rw [hsplit, ih fun other hother => h other (by simp [hother])]
      rfl

/-! ## Cutting off numbers, names and calls

Each way in which `readSpan` moves on through a text, told of the flat scan. -/

private theorem scan_inNumber (text : Text) :
    scan .inNumber text = dottedNames (text.dropWhile isNamePart) := by
  induction text with
  | nil => rfl
  | cons byte rest ih =>
      by_cases hpart : isNamePart byte = true
      · simp [scan, hpart, ih]
      · rw [Bool.not_eq_true] at hpart
        rw [List.dropWhile_cons_of_neg (by simp [hpart]), dottedNames,
          scan_outside_cons_of_not_part hpart]
        simp [scan, hpart]

private theorem scan_inName (soFar text : Text) :
    scan (.inName soFar) text =
      (soFar ++ (splitName text).1) :: dottedNames (splitName text).2 := by
  induction text generalizing soFar with
  | nil => simp [scan, splitName, dottedNames]
  | cons byte rest ih =>
      simp only [scan, splitName]
      split
      · rw [ih, List.append_assoc, List.singleton_append]
      · next hstop =>
          -- A byte that ends a name is in none, so it is skipped on both sides.
          simp only [Bool.or_eq_true, not_or, Bool.not_eq_true] at hstop
          rw [List.append_nil, dottedNames, scan_outside_cons_of_not_part hstop.1]

private theorem dottedNames_number {byte : UInt8} (h : Text.isDigit byte = true) (rest : Text) :
    dottedNames (byte :: rest) = dottedNames (rest.dropWhile isNamePart) := by
  rw [dottedNames, scan, if_pos h, scan_inNumber]

private theorem dottedNames_name {byte : UInt8} (hdigit : Text.isDigit byte = false)
    (hstart : isNameStart byte = true) (rest : Text) :
    dottedNames (byte :: rest) =
      (splitName (byte :: rest)).1 :: dottedNames (splitName (byte :: rest)).2 := by
  have hpart : isNamePart byte = true := by simp [isNamePart, hstart]
  rw [dottedNames, scan, if_neg (by simp [hdigit]), if_pos hstart, scan_inName]
  simp [splitName, hpart]

/-- Where the search for a closing parenthesis ends, there is one or the text is over. -/
theorem drop_closingOffset (depth : Nat) (text : Text) :
    text.drop (closingOffset depth text) = [] ∨
      ∃ behind, text.drop (closingOffset depth text) = closing :: behind := by
  induction text generalizing depth with
  | nil => simp
  | cons byte rest ih =>
      simp only [closingOffset]
      split
      · exact ih _
      · split
        · next hclosing =>
            split
            · exact Or.inr ⟨rest, by rw [List.drop_zero, hclosing]⟩
            · exact ih _
        · exact ih _

/-- The names of a text that begins with a call are those of the arguments and those behind the
call, closed or not. -/
theorem dottedNames_call {text arguments behind : Text}
    (h : splitCall? text = some (arguments, behind)) :
    dottedNames text = dottedNames arguments ++ dottedNames behind := by
  obtain ⟨blanks, rest, rfl, hblanks⟩ := exists_append_of_splitCall? h
  rw [splitCall?_append hblanks] at h
  cases h
  -- Blanks and the opening parenthesis hold no name; what is left is `rest`.
  rw [dottedNames_append_break isBreak_opening,
    dottedNames_of_breaks fun byte hbyte => isBreak_of_isSpaceOrTab (hblanks byte hbyte),
    List.nil_append, ← List.drop_drop]
  conv => lhs; rw [← List.take_append_drop (closingOffset 1 rest) rest]
  rcases drop_closingOffset 1 rest with hend | ⟨behind, hclosed⟩
  · rw [hend]
    simp [dottedNames, scan]
  · rw [hclosed, dottedNames_append_break isBreak_closing]
    rfl

/-! ## Readings of several paths -/

namespace Reading

theorem join_assoc (a b : Reading) {c : Reading} (hc : Ascends c.names) :
    (a.join b).join c = a.join (b.join c) := by
  have hnames : insertNames (insertNames a.names b.names) c.names =
      insertNames a.names (insertNames b.names c.names) := by
    refine (ascends_insertNames _ hc).eq_of_mem_iff
      (ascends_insertNames _ (ascends_insertNames _ hc)) fun name => ?_
    simp only [mem_insertNames, or_assoc]
  simp only [join, hnames, Level.join_assoc]

end Reading

namespace State

/-- What naming several paths reads. -/
def readPaths (σ : State) : List Text → Reading
  | [] => .nothing
  | path :: rest => (σ.readName path).join (readPaths σ rest)

theorem ascends_names_readPaths (σ : State) (paths : List Text) :
    Ascends (σ.readPaths paths).names := by
  induction paths with
  | nil => simp [readPaths, Reading.nothing, Ascends]
  | cons path rest ih => exact ascends_insertNames _ ih

private theorem nothing_join_readPaths (σ : State) (paths : List Text) :
    Reading.nothing.join (σ.readPaths paths) = σ.readPaths paths := by
  cases paths with
  | nil => rfl
  | cons path rest =>
      simp only [readPaths, Reading.join, Reading.nothing, Level.untainted_join, Level.clamp_join]
      rfl

private theorem readPaths_append (σ : State) (front back : List Text) :
    σ.readPaths (front ++ back) = (σ.readPaths front).join (σ.readPaths back) := by
  induction front with
  | nil => exact (nothing_join_readPaths σ back).symm
  | cons path rest ih =>
      rw [List.cons_append, readPaths, ih, readPaths,
        Reading.join_assoc _ _ (ascends_names_readPaths σ back)]

/-- **Reading recursively is reading the names of a flat scan.** -/
theorem readSpan_eq_readPaths (σ : State) (text : Text) :
    σ.readSpan text = σ.readPaths (dottedNames text) := by
  fun_induction State.readSpan σ text with
  | case1 => rfl
  | case2 byte rest hdigit ih => rw [ih, dottedNames_number hdigit]
  | case3 byte rest hdigit hstart named arguments behind hcall ihArguments ihBehind =>
      rw [Bool.not_eq_true] at hdigit
      rw [dottedNames_name hdigit hstart, dottedNames_call hcall, readPaths, readPaths_append,
        ihArguments, ihBehind, Reading.join_assoc _ _ (ascends_names_readPaths σ _)]
  | case4 byte rest hdigit hstart named hcall ih =>
      rw [Bool.not_eq_true] at hdigit
      rw [dottedNames_name hdigit hstart, readPaths, ih]
  | case5 byte rest hdigit hstart ih =>
      rw [Bool.not_eq_true] at hdigit hstart
      have hpart : isNamePart byte = false := by simp [isNamePart, hstart, hdigit]
      rw [ih, dottedNames, dottedNames, scan_outside_cons_of_not_part hpart]

/-! ## The set of names and the join of their levels -/

private theorem readName_eq (σ : State) (path : Text) :
    σ.readName path =
      match σ.longestTracked? path with
      | some name => { level := σ.level name, names := [name] }
      | none => .nothing := by
  rw [readName, resolve_eq_longestTracked?]
  cases σ.longestTracked? path <;> rfl

theorem names_readPaths (σ : State) (paths : List Text) :
    (σ.readPaths paths).names = ascending (paths.filterMap σ.longestTracked?) := by
  refine (ascends_names_readPaths σ paths).eq_of_mem_iff (ascends_ascending _) fun name => ?_
  induction paths with
  | nil => simp [readPaths, Reading.nothing]
  | cons path rest ih =>
      rw [mem_ascending] at ih ⊢
      simp only [readPaths, Reading.join, mem_insertNames, ih, readName_eq]
      cases hfound : σ.longestTracked? path with
      | none => simp [Reading.nothing, hfound]
      | some found => simp [hfound]

theorem level_readPaths (σ : State) (paths : List Text) :
    (σ.readPaths paths).level =
      .joinAll ((paths.filterMap σ.longestTracked?).map σ.level) := by
  induction paths with
  | nil => rfl
  | cons path rest ih =>
      simp only [readPaths, Reading.join, ih, readName_eq]
      cases hfound : σ.longestTracked? path with
      | none => simp [Reading.nothing, hfound]
      | some found => simp [hfound]

/-- The reading of a scanner that ignores parentheses: each dotted name of the text counts as the
longest tracked leading part it has, and their levels are joined. -/
def flatReading (σ : State) (text : Text) : Reading :=
  let found := (dottedNames text).filterMap σ.longestTracked?
  { level := .joinAll (found.map σ.level), names := ascending found }

/-- **Parentheses neither hide nor invent a name.** Reading call arguments recursively gives the
level and the names that one flat pass over the text gives, whether its parentheses are balanced
or not. -/
theorem readSpan_eq_flatReading (σ : State) (text : Text) :
    σ.readSpan text = σ.flatReading text := by
  have hlevel := level_readPaths σ (dottedNames text)
  have hnames := names_readPaths σ (dottedNames text)
  rw [readSpan_eq_readPaths, flatReading, ← hlevel, ← hnames]

end State

end Shortfall.Taint

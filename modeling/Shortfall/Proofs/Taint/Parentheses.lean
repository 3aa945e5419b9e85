import Mathlib.Data.List.TakeWhile
import Shortfall.Taint.Expression

/-!
# Matching parentheses

The arguments of a call are what stands between its parentheses. Where they end is found by
counting: the search begins at the opening parenthesis, goes up and down with every parenthesis it
meets, and stops where the count comes back to nothing. Here the same is said without a count. A
text is balanced if no front of it closes more parentheses than it opens and the whole closes as
many (`IsBalanced`), and a closing parenthesis belongs to an opening one if the text between them is
balanced (`Closes`).

The counter is what relates the two. In the middle of a search there are several parentheses open,
and what is needed of the text in front of the closing one is that it closes all of them but the
first (`LeavesOne`). One byte of the text changes the number of open parentheses and nothing else,
so the search and the property go through a text side by side.

The position found is behind the opening parenthesis and not behind the end of the text, whether the
parentheses are balanced or not. So the arguments can always be cut out, and there is at least one
opening parenthesis less in them than in the whole; reading arguments inside of arguments comes to
an end (`readsWithin_readSpan`).

## Main results

* `closingOffset_append`, `exists_leavesOne_of_closingOffset_lt`: what the counter finds.
* `closes_matchParen`, `matchParen_eq_of_closes`: the parenthesis found is the one that closes.
* `readsWithin_readSpan`: calls inside of calls are read to the end.
* `matchParen_finds_closing`: all of this, for every text.
-/

namespace Shortfall.Taint

/-! ## Balanced texts -/

/-- A text whose parentheses are balanced: no front of it closes more of them than it opens, and the
whole closes as many as it opens. -/
structure IsBalanced (text : Text) : Prop where
  closing_le : ∀ front, front <+: text → front.count closing ≤ front.count opening
  closing_eq : text.count closing = text.count opening

/-- A text behind `depth` open parentheses that closes all but the first of them, and that one
never. -/
structure LeavesOne (depth : Nat) (text : Text) : Prop where
  closing_lt : ∀ front, front <+: text → front.count closing < depth + front.count opening
  closing_add_one : text.count closing + 1 = depth + text.count opening

theorem isBalanced_iff {text : Text} : IsBalanced text ↔ LeavesOne 1 text := by
  constructor
  · intro h
    refine ⟨fun front hfront => ?_, ?_⟩
    · have := h.closing_le front hfront
      omega
    · have := h.closing_eq
      omega
  · intro h
    refine ⟨fun front hfront => ?_, ?_⟩
    · have := h.closing_lt front hfront
      omega
    · have := h.closing_add_one
      omega

section LeavesOne

variable {byte : UInt8} {depth : Nat} {text : Text}

private theorem LeavesOne.depth_pos (h : LeavesOne depth text) : 0 < depth :=
  h.closing_lt [] List.nil_prefix

theorem leavesOne_nil_iff : LeavesOne depth [] ↔ depth = 1 := by
  constructor
  · intro h
    exact h.closing_add_one.symm
  · rintro rfl
    exact isBalanced_iff.mp ⟨by simp, rfl⟩

/-- The first byte of a text only changes how many parentheses are open for the rest. -/
theorem leavesOne_cons_iff {next : Nat} (hdepth : 0 < depth)
    (h : ∀ front : Text, (byte :: front).count closing + next + front.count opening =
      front.count closing + depth + (byte :: front).count opening) :
    LeavesOne depth (byte :: text) ↔ LeavesOne next text := by
  constructor
  · intro hopen
    refine ⟨fun front hfront => ?_, ?_⟩
    · have hlonger := hopen.closing_lt (byte :: front) (List.cons_prefix_cons.mpr ⟨rfl, hfront⟩)
      have := h front
      omega
    · have hwhole := hopen.closing_add_one
      have := h text
      omega
  · intro hopen
    refine ⟨fun front hfront => ?_, ?_⟩
    · rcases List.prefix_cons_iff.mp hfront with rfl | ⟨shorter, rfl, hshorter⟩
      · exact hdepth
      · have hbehind := hopen.closing_lt shorter hshorter
        have := h shorter
        omega
    · have hwhole := hopen.closing_add_one
      have := h text
      omega

theorem leavesOne_opening_cons_iff (hdepth : 0 < depth) :
    LeavesOne depth (opening :: text) ↔ LeavesOne (depth + 1) text := by
  refine leavesOne_cons_iff hdepth fun front => ?_
  rw [List.count_cons_self, List.count_cons_of_ne (by decide)]
  omega

theorem leavesOne_closing_cons_iff (hdepth : 1 < depth) :
    LeavesOne depth (closing :: text) ↔ LeavesOne (depth - 1) text := by
  refine leavesOne_cons_iff (by omega) fun front => ?_
  rw [List.count_cons_self, List.count_cons_of_ne (by decide)]
  omega

private theorem not_leavesOne_closing_cons : ¬LeavesOne 1 (closing :: text) := by
  intro h
  have hfirst := h.closing_lt [closing] ⟨text, rfl⟩
  exact absurd hfirst (by decide)

theorem leavesOne_other_cons_iff (hdepth : 0 < depth) (hopening : byte ≠ opening)
    (hclosing : byte ≠ closing) : LeavesOne depth (byte :: text) ↔ LeavesOne depth text := by
  refine leavesOne_cons_iff hdepth fun front => ?_
  rw [List.count_cons_of_ne hopening, List.count_cons_of_ne hclosing]

end LeavesOne

/-! ## Counting parentheses -/

/-- The closing parenthesis behind a text that leaves one open is found. -/
theorem closingOffset_append {depth : Nat} {front : Text} (h : LeavesOne depth front)
    (behind : Text) : closingOffset depth (front ++ closing :: behind) = front.length := by
  induction front generalizing depth with
  | nil =>
      rw [leavesOne_nil_iff.mp h]
      rfl
  | cons byte front ih =>
      have hdepth := h.depth_pos
      rw [List.cons_append, closingOffset, List.length_cons]
      by_cases hopening : byte = opening
      · subst hopening
        rw [if_pos rfl, ih ((leavesOne_opening_cons_iff hdepth).mp h)]
      · rw [if_neg hopening]
        by_cases hclosing : byte = closing
        · subst hclosing
          rw [if_pos rfl]
          by_cases hone : depth = 1
          · subst hone
            exact absurd h not_leavesOne_closing_cons
          · rw [if_neg hone, ih ((leavesOne_closing_cons_iff (by omega)).mp h)]
        · rw [if_neg hclosing, ih ((leavesOne_other_cons_iff hdepth hopening hclosing).mp h)]

/-- Where the search stops before the end of a text, there is a closing parenthesis behind a text
that leaves one open. -/
theorem exists_leavesOne_of_closingOffset_lt {depth : Nat} {text : Text} (hdepth : 0 < depth)
    (h : closingOffset depth text < text.length) :
    ∃ front behind, text = front ++ closing :: behind ∧ LeavesOne depth front := by
  induction text generalizing depth with
  | nil => exact absurd h (Nat.not_lt_zero _)
  | cons byte rest ih =>
      rw [closingOffset, List.length_cons] at h
      by_cases hopening : byte = opening
      · rw [if_pos hopening, Nat.add_lt_add_iff_right] at h
        obtain ⟨front, behind, hrest, hopen⟩ := ih (Nat.succ_pos depth) h
        refine ⟨byte :: front, behind, by rw [hrest, List.cons_append], ?_⟩
        rw [hopening]
        exact (leavesOne_opening_cons_iff hdepth).mpr hopen
      · rw [if_neg hopening] at h
        by_cases hclosing : byte = closing
        · rw [if_pos hclosing] at h
          by_cases hone : depth = 1
          · exact ⟨[], rest, by rw [hclosing, List.nil_append], leavesOne_nil_iff.mpr hone⟩
          · rw [if_neg hone, Nat.add_lt_add_iff_right] at h
            obtain ⟨front, behind, hrest, hopen⟩ := ih (by omega) h
            refine ⟨byte :: front, behind, by rw [hrest, List.cons_append], ?_⟩
            rw [hclosing]
            exact (leavesOne_closing_cons_iff (by omega)).mpr hopen
        · rw [if_neg hclosing, Nat.add_lt_add_iff_right] at h
          obtain ⟨front, behind, hrest, hopen⟩ := ih hdepth h
          refine ⟨byte :: front, behind, by rw [hrest, List.cons_append], ?_⟩
          exact (leavesOne_other_cons_iff hdepth hopening hclosing).mpr hopen

/-! ## Positions -/

/-- The text strictly between two positions. -/
def between (text : Text) (start stop : Nat) : Text := (text.take stop).drop (start + 1)

/-- The parenthesis at `stop` closes the one at `start`: what is between them is balanced. -/
structure Closes (text : Text) (start stop : Nat) : Prop where
  start_lt : start < stop
  closed : text[stop]? = some closing
  balanced : IsBalanced (between text start stop)

theorem exists_append_of_getElem? {text : Text} {position : Nat} {byte : UInt8}
    (h : text[position]? = some byte) :
    ∃ front rest, text = front ++ byte :: rest ∧ position = front.length := by
  obtain ⟨hposition, hbyte⟩ := List.getElem?_eq_some_iff.mp h
  refine ⟨text.take position, text.drop (position + 1), ?_, ?_⟩
  · rw [← hbyte, ← List.drop_eq_getElem_cons, List.take_append_drop]
  · rw [List.length_take_of_le (Nat.le_of_lt hposition)]

section Front

variable {front rest : Text} {offset : Nat}

theorem matchParen_append :
    matchParen (front ++ opening :: rest) front.length =
      front.length + (closingOffset 1 rest + 1) := by
  rw [matchParen, List.drop_left, closingOffset, if_pos rfl]

theorem between_append {byte : UInt8} :
    between (front ++ byte :: rest) front.length (front.length + (offset + 1)) =
      rest.take offset := by
  rw [between, List.take_length_add_append, ← List.drop_drop, List.drop_left, List.take_succ_cons,
    List.drop_succ_cons, List.drop_zero]

private theorem getElem?_append_cons {byte : UInt8} :
    (front ++ byte :: rest)[front.length + (offset + 1)]? = rest[offset]? := by
  rw [List.getElem?_append_right (Nat.le_add_right _ _), Nat.add_sub_cancel_left,
    List.getElem?_cons_succ]

private theorem drop_append_cons {byte : UInt8} :
    (front ++ byte :: rest).drop (front.length + (offset + 1)) = rest.drop offset := by
  rw [← List.drop_drop, List.drop_left, List.drop_succ_cons]

/-- What closes a parenthesis is found in the text behind it. -/
theorem closes_iff {stop : Nat} :
    Closes (front ++ opening :: rest) front.length stop ↔
      ∃ inside behind, rest = inside ++ closing :: behind ∧ IsBalanced inside ∧
        stop = front.length + (inside.length + 1) := by
  constructor
  · intro h
    obtain ⟨offset, rfl⟩ := Nat.exists_eq_add_of_lt h.start_lt
    have hclosed : rest[offset]? = some closing := by rw [← getElem?_append_cons]; exact h.closed
    obtain ⟨inside, behind, rfl, rfl⟩ := exists_append_of_getElem? hclosed
    have hbalanced := h.balanced
    rw [Nat.add_assoc, between_append, List.take_left] at hbalanced
    exact ⟨inside, behind, rfl, hbalanced, rfl⟩
  · rintro ⟨inside, behind, rfl, hbalanced, rfl⟩
    refine ⟨by omega, ?_, ?_⟩
    · rw [getElem?_append_cons, List.getElem?_append_right (Nat.le_refl _), Nat.sub_self]
      rfl
    · rwa [between_append, List.take_left]

end Front

section Matching

variable {text : Text} {start stop : Nat}

theorem matchParen_bounds (h : text[start]? = some opening) :
    start < matchParen text start ∧ matchParen text start ≤ text.length := by
  obtain ⟨front, rest, rfl, rfl⟩ := exists_append_of_getElem? h
  have hle := closingOffset_le 1 rest
  rw [matchParen_append, List.length_append, List.length_cons]
  omega

private theorem length_between_matchParen (h : text[start]? = some opening) :
    (between text start (matchParen text start)).length + (start + 1) = matchParen text start := by
  have hbounds := matchParen_bounds h
  rw [between, List.length_drop, List.length_take]
  omega

theorem closes_matchParen (h : text[start]? = some opening)
    (hlt : matchParen text start < text.length) : Closes text start (matchParen text start) := by
  obtain ⟨front, rest, rfl, rfl⟩ := exists_append_of_getElem? h
  rw [matchParen_append] at hlt ⊢
  have hfound : closingOffset 1 rest < rest.length := by
    rw [List.length_append, List.length_cons] at hlt
    omega
  obtain ⟨inside, behind, rfl, hopen⟩ := exists_leavesOne_of_closingOffset_lt Nat.one_pos hfound
  rw [closingOffset_append hopen, closes_iff]
  exact ⟨inside, behind, rfl, isBalanced_iff.mpr hopen, rfl⟩

/-- No two parentheses close the same one. -/
theorem matchParen_eq_of_closes (h : text[start]? = some opening)
    (hcloses : Closes text start stop) : matchParen text start = stop := by
  obtain ⟨front, rest, rfl, rfl⟩ := exists_append_of_getElem? h
  obtain ⟨inside, behind, rfl, hbalanced, rfl⟩ := closes_iff.mp hcloses
  rw [matchParen_append, closingOffset_append (isBalanced_iff.mp hbalanced)]

theorem matchParen_eq_length_iff (h : text[start]? = some opening) :
    matchParen text start = text.length ↔ ¬∃ stop, Closes text start stop := by
  constructor
  · rintro hend ⟨stop, hcloses⟩
    obtain ⟨hstop, _⟩ := List.getElem?_eq_some_iff.mp hcloses.closed
    rw [← matchParen_eq_of_closes h hcloses, hend] at hstop
    exact absurd hstop (Nat.lt_irrefl _)
  · intro hopen
    by_contra hother
    have hle := (matchParen_bounds h).2
    exact hopen ⟨_, closes_matchParen h (by omega)⟩

end Matching

/-! ## Calls -/

/-- The name at the front of a text is called: behind it, and behind spaces and tabs, an opening
parenthesis stands at `start`. -/
def OpensCall (text : Text) (start : Nat) : Prop :=
  ∃ blanks rest, (splitName text).2 = blanks ++ opening :: rest ∧
    (∀ byte ∈ blanks, isSpaceOrTab byte = true) ∧ start = ((splitName text).1 ++ blanks).length

section Calls

variable {text arguments behind : Text} {start : Nat}

theorem splitCall?_append {blanks : Text} (h : ∀ byte ∈ blanks, isSpaceOrTab byte = true)
    (rest : Text) :
    splitCall? (blanks ++ opening :: rest) =
      some (rest.take (closingOffset 1 rest), rest.drop (closingOffset 1 rest + 1)) := by
  have hopening : ¬isSpaceOrTab opening = true := by decide
  rw [splitCall?, List.dropWhile_append_of_pos h, List.dropWhile_cons_of_neg hopening]
  simp [matchParen, closingOffset]

theorem exists_append_of_splitCall? (h : splitCall? text = some (arguments, behind)) :
    ∃ blanks rest, text = blanks ++ opening :: rest ∧
      ∀ byte ∈ blanks, isSpaceOrTab byte = true := by
  have htext := List.takeWhile_append_dropWhile (p := isSpaceOrTab) (l := text)
  rw [splitCall?] at h
  split at h
  case h_1 => cases h
  case h_2 first rest hrest =>
    split at h
    case isTrue hfirst =>
      rw [hrest, hfirst] at htext
      exact ⟨_, rest, htext.symm, fun byte hbyte => List.mem_takeWhile_imp hbyte⟩
    case isFalse => cases h

private theorem OpensCall.exists_append (h : OpensCall text start) :
    ∃ front rest, text = front ++ opening :: rest ∧ start = front.length ∧
      splitCall? (splitName text).2 =
        some (rest.take (closingOffset 1 rest), rest.drop (closingOffset 1 rest + 1)) := by
  obtain ⟨blanks, rest, hrest, hblanks, rfl⟩ := h
  refine ⟨(splitName text).1 ++ blanks, rest, ?_, rfl, ?_⟩
  · rw [List.append_assoc, ← hrest, splitName_append]
  · rw [hrest, splitCall?_append hblanks]

/-- The arguments of a call are what stands between its parentheses. -/
theorem OpensCall.splitCall?_eq (h : OpensCall text start) :
    splitCall? (splitName text).2 = some (between text start (matchParen text start),
      text.drop (matchParen text start + 1)) := by
  obtain ⟨front, rest, htext, rfl, hsplit⟩ := h.exists_append
  have harguments : between text front.length (matchParen text front.length) =
      rest.take (closingOffset 1 rest) := by
    rw [htext, matchParen_append, between_append]
  have hbehind : text.drop (matchParen text front.length + 1) =
      rest.drop (closingOffset 1 rest + 1) := by
    rw [htext, matchParen_append, Nat.add_assoc, drop_append_cons]
  rw [hsplit, harguments, hbehind]

/-- The parenthesis that opens a call is not among its arguments. -/
theorem OpensCall.count_lt (h : OpensCall text start) :
    (between text start (matchParen text start)).count opening < text.count opening := by
  obtain ⟨front, rest, rfl, rfl, _⟩ := h.exists_append
  have harguments := (List.take_sublist (closingOffset 1 rest) rest).count_le opening
  rw [matchParen_append, between_append, List.count_append, List.count_cons_self]
  omega

private theorem exists_opensCall (h : splitCall? (splitName text).2 = some (arguments, behind)) :
    ∃ start, OpensCall text start := by
  obtain ⟨blanks, rest, hrest, hblanks⟩ := exists_append_of_splitCall? h
  exact ⟨_, blanks, rest, hrest, hblanks, rfl⟩

end Calls

/-! ## Reading to the end -/

/-- A reading of a text that comes to its end with calls at most `depth` deep inside one another.
The arguments of a call and the text behind it are cut out at its parentheses. -/
inductive ReadsWithin (σ : State) : (depth : Nat) → Text → Reading → Prop
  | ended (depth : Nat) : ReadsWithin σ depth [] .nothing
  | number {depth byte rest reading} (hdigit : Text.isDigit byte = true)
      (hrest : ReadsWithin σ depth (rest.dropWhile isNamePart) reading) :
      ReadsWithin σ depth (byte :: rest) reading
  | skip {depth byte rest reading} (hdigit : Text.isDigit byte = false)
      (hname : isNameStart byte = false) (hrest : ReadsWithin σ depth rest reading) :
      ReadsWithin σ depth (byte :: rest) reading
  | name {depth byte rest reading} (hdigit : Text.isDigit byte = false)
      (hname : isNameStart byte = true) (hcall : ∀ start, ¬OpensCall (byte :: rest) start)
      (hrest : ReadsWithin σ depth (splitName (byte :: rest)).2 reading) :
      ReadsWithin σ depth (byte :: rest)
        ((σ.readName (splitName (byte :: rest)).1).join reading)
  | call {depth byte rest start inner outer} (hdigit : Text.isDigit byte = false)
      (hname : isNameStart byte = true) (hcall : OpensCall (byte :: rest) start)
      (harguments : ReadsWithin σ depth
        (between (byte :: rest) start (matchParen (byte :: rest) start)) inner)
      (hbehind : ReadsWithin σ (depth + 1)
        ((byte :: rest).drop (matchParen (byte :: rest) start + 1)) outer) :
      ReadsWithin σ (depth + 1) (byte :: rest)
        (((σ.readName (splitName (byte :: rest)).1).join inner).join outer)

namespace State

/-- **Reading comes to an end**, and calls are no deeper inside one another than there are opening
parentheses. -/
theorem readsWithin_readSpan (σ : State) (text : Text) :
    ∀ depth, text.count opening ≤ depth → ReadsWithin σ depth text (σ.readSpan text) := by
  fun_induction State.readSpan σ text with
  | case1 =>
      intro depth _
      exact .ended depth
  | case2 byte rest hdigit ih =>
      intro depth hdepth
      have hrest := (List.dropWhile_sublist isNamePart (l := rest)).count_le opening
      have hcons := (List.sublist_cons_self byte rest).count_le opening
      exact .number hdigit (ih depth (by omega))
  | case3 byte rest hdigit hname named arguments behind hcall ihArguments ihBehind =>
      intro depth hdepth
      rw [Bool.not_eq_true] at hdigit
      obtain ⟨start, hopens⟩ := exists_opensCall hcall
      rw [hopens.splitCall?_eq, Option.some.injEq, Prod.mk.injEq] at hcall
      obtain ⟨rfl, rfl⟩ := hcall
      have hfewer := hopens.count_lt
      have hbehind := (List.drop_sublist (matchParen (byte :: rest) start + 1)
        (byte :: rest)).count_le opening
      cases depth with
      | zero => omega
      | succ depth =>
          exact .call hdigit hname hopens (ihArguments depth (by omega))
            (ihBehind (depth + 1) (by omega))
  | case4 byte rest hdigit hname named hcall ih =>
      intro depth hdepth
      rw [Bool.not_eq_true] at hdigit
      have hnone : ∀ start, ¬OpensCall (byte :: rest) start := by
        intro start hopens
        rw [hopens.splitCall?_eq] at hcall
        cases hcall
      have hrest := ((List.suffix_append (splitName (byte :: rest)).1
        (splitName (byte :: rest)).2).sublist).count_le opening
      rw [splitName_append] at hrest
      exact .name hdigit hname hnone (ih depth (by omega))
  | case5 byte rest hdigit hname ih =>
      intro depth hdepth
      rw [Bool.not_eq_true] at hdigit hname
      have hcons := (List.sublist_cons_self byte rest).count_le opening
      exact .skip hdigit hname (ih depth (by omega))

end State

private theorem ReadsWithin.eq_readSpan {σ : State} {depth : Nat} {text : Text} {reading : Reading}
    (h : ReadsWithin σ depth text reading) : reading = σ.readSpan text := by
  induction h with
  | ended depth => rw [State.readSpan]
  | number hdigit _ ih => rw [State.readSpan, if_pos hdigit, ih]
  | skip hdigit hname _ ih =>
      rw [State.readSpan, if_neg (by simp [hdigit]), dif_neg (by simp [hname]), ih]
  | name hdigit hname hcall _ ih =>
      rw [State.readSpan, if_neg (by simp [hdigit]), dif_pos hname]
      split
      case h_1 arguments behind hsplit =>
        obtain ⟨start, hopens⟩ := exists_opensCall hsplit
        exact absurd hopens (hcall start)
      case h_2 => rw [ih]
  | call hdigit hname hcall _ _ ihArguments ihBehind =>
      rw [State.readSpan, if_neg (by simp [hdigit]), dif_pos hname]
      split
      case h_1 arguments behind hsplit =>
        rw [hcall.splitCall?_eq, Option.some.injEq, Prod.mk.injEq] at hsplit
        rw [ihArguments, ihBehind, hsplit.1, hsplit.2]
      case h_2 hsplit =>
        rw [hcall.splitCall?_eq] at hsplit
        cases hsplit

/-- **The parenthesis that closes another one is found, and reading ends.** From an opening
parenthesis the search stops behind it, inside the text or at its end. What it has passed can be cut
out, and is shorter than the text. Before the end of the text it has found the parenthesis that
closes, and it goes to the end just if there is none. Reading a text, and the arguments of its calls
in the same way, comes to its end with one reading, and the calls are no deeper inside one another
than there are opening parentheses in the text. -/
theorem matchParen_finds_closing (σ : State) (text : Text) :
    (∀ start, text[start]? = some opening →
      start < matchParen text start ∧ matchParen text start ≤ text.length ∧
      (between text start (matchParen text start)).length + (start + 1) = matchParen text start ∧
      (between text start (matchParen text start)).length < text.length ∧
      (matchParen text start < text.length → Closes text start (matchParen text start)) ∧
      (matchParen text start = text.length ↔ ¬∃ stop, Closes text start stop)) ∧
    ∀ reading, ReadsWithin σ (text.count opening) text reading ↔ reading = σ.readSpan text := by
  refine ⟨?_, ?_⟩
  · intro start h
    obtain ⟨hstart, hstop⟩ := matchParen_bounds h
    have hlength := length_between_matchParen h
    exact ⟨hstart, hstop, hlength, by omega, closes_matchParen h, matchParen_eq_length_iff h⟩
  · intro reading
    constructor
    · exact ReadsWithin.eq_readSpan
    · rintro rfl
      exact σ.readsWithin_readSpan text _ (Nat.le_refl _)

/-- A call with a call in its arguments, and one that is never closed. -/
theorem matchParen_finds_closing_nested :
    matchParen "f(a(b)c)d(e" 1 = 7 ∧ Closes "f(a(b)c)d(e" 1 7 ∧
      ¬∃ stop, Closes "f(a(b)c)d(e" 9 stop := by
  have hclosed : matchParen "f(a(b)c)d(e" 1 = 7 := by decide
  have hopen : matchParen "f(a(b)c)d(e" 9 = 11 := by decide
  obtain ⟨hfinds, _⟩ := matchParen_finds_closing .empty "f(a(b)c)d(e"
  obtain ⟨_, _, _, _, hcloses, _⟩ := hfinds 1 (by decide)
  obtain ⟨_, _, _, _, _, hend⟩ := hfinds 9 (by decide)
  rw [hclosed] at hcloses
  exact ⟨hclosed, hcloses (by decide), hend.mp hopen⟩

end Shortfall.Taint

import Shortfall.Proofs.Taint.FlatScan
import Shortfall.Taint.Transfer

/-!
# What a statement reads and what it computes

The level that flows out of a statement and the set of variables it reads are computed by
different functions, each from the text of the statement. They agree: a statement that is not a
user input yields the join of the levels of the variables in its read set
(`outLevel_eq_joinAll`), and every variable in a read set is tracked.

## Main results

* `level_read`: the level of an expression is that of the variables it names.
* `readSet_eq_ascending`: a statement reads what its operands name.
* `outLevel_eq_join`: what a statement computes is the join of what it is given and what it reads.
-/

namespace Shortfall.Taint

/-- Whether the statement hands on what it reads: an assignment, or a call of a method that is no
sanitizer. -/
def Statement.passesOn (stmt : Statement) : Bool :=
  match stmt.kind with
  | .assignment => true
  | .methodCall => !isSanitizerName stmt.method
  | _ => false

/-- The expressions that a statement reads. A call of a sanitizer reads none. -/
def Statement.operands (stmt : Statement) : List Text :=
  match stmt.kind with
  | .assignment | .assertion => [stmt.expression]
  | .methodCall => if isSanitizerName stmt.method then [] else stmt.args
  | _ => []

theorem Statement.writes_iff {stmt : Statement} :
    stmt.writes = true ↔ stmt.target ≠ [] ∧ stmt.kind ≠ .assertion := by
  simp [Statement.writes]

namespace State

/-- An expression names the variables that its dotted names stand for. -/
theorem mem_names_read_iff {σ : State} {expression name : Text} :
    name ∈ (σ.read expression).names ↔
      ∃ path ∈ dottedNames (stripLiterals expression), σ.longestTracked? path = some name := by
  rw [read, readSpan_eq_readPaths, names_readPaths, mem_ascending, List.mem_filterMap]

theorem tracks_of_mem_read {σ : State} {expression name : Text}
    (h : name ∈ (σ.read expression).names) : σ.tracks name = true := by
  obtain ⟨path, _, hfound⟩ := mem_names_read_iff.mp h
  exact tracks_of_longestTracked? hfound

theorem ne_nil_of_mem_read {σ : State} {expression name : Text}
    (h : name ∈ (σ.read expression).names) : name ≠ [] := by
  obtain ⟨path, _, hfound⟩ := mem_names_read_iff.mp h
  exact ne_nil_of_longestTracked? hfound

theorem ascends_names_read (σ : State) (expression : Text) :
    Ascends (σ.read expression).names := by
  rw [read, readSpan_eq_readPaths]
  exact ascends_names_readPaths σ _

/-- The level of an expression is the join of the levels of the variables it names. -/
theorem level_read (σ : State) (expression : Text) :
    (σ.read expression).level = .joinAll ((σ.read expression).names.map σ.level) := by
  rw [read, readSpan_eq_readPaths, names_readPaths, level_readPaths]
  apply Level.joinAll_eq_of_mem_iff
  simp only [List.mem_map, mem_ascending, implies_true]

private theorem levelOfAll_eq_joinAll (σ : State) (expressions : List Text) :
    σ.levelOfAll expressions =
      .joinAll ((expressions.flatMap fun expression => (σ.read expression).names).map σ.level) := by
  induction expressions with
  | nil => rfl
  | cons expression rest ih =>
      rw [levelOfAll, List.map_cons, Level.joinAll_cons, List.flatMap_cons, List.map_append,
        Level.joinAll_append, ← ih, ← level_read]
      rfl

/-- The variables that a statement reads are those that its operands name, in order. -/
theorem readSet_eq_ascending (σ : State) (stmt : Statement) :
    σ.readSet stmt = ascending (stmt.operands.flatMap fun operand => (σ.read operand).names) := by
  have hsingle : ∀ expression, (σ.read expression).names =
      ascending ([expression].flatMap fun operand => (σ.read operand).names) := by
    intro expression
    refine (ascends_names_read σ expression).eq_of_mem_iff (ascends_ascending _) fun name => ?_
    rw [mem_ascending, List.flatMap_singleton]
  cases hstmt : stmt.kind with
  | assignment => simp only [readSet, Statement.operands, hstmt, ← hsingle]
  | assertion => simp only [readSet, Statement.operands, hstmt, ← hsingle]
  | methodCall =>
      simp only [readSet, Statement.operands, hstmt]
      split <;> rfl
  | _ =>
      simp only [readSet, Statement.operands, hstmt]
      rfl

theorem mem_readSet_iff {σ : State} {stmt : Statement} {name : Text} :
    name ∈ σ.readSet stmt ↔ ∃ operand ∈ stmt.operands, name ∈ (σ.read operand).names := by
  rw [readSet_eq_ascending, mem_ascending, List.mem_flatMap]

theorem tracks_of_mem_readSet {σ : State} {stmt : Statement} {name : Text}
    (h : name ∈ σ.readSet stmt) : σ.tracks name = true := by
  obtain ⟨operand, _, hname⟩ := mem_readSet_iff.mp h
  exact tracks_of_mem_read hname

/-- A statement that reads something and may write hands on what it reads. -/
theorem passesOn_of_mem_readSet {σ : State} {stmt : Statement} {name : Text}
    (h : name ∈ σ.readSet stmt) (hkind : stmt.kind ≠ .assertion) : stmt.passesOn = true := by
  unfold readSet at h
  unfold Statement.passesOn
  cases hstmt : stmt.kind with
  | assertion => exact absurd hstmt hkind
  | assignment => rfl
  | methodCall =>
      simp only [hstmt] at h
      split at h
      · simp at h
      · next hmethod => simp [hmethod]
  | _ => simp [hstmt] at h

theorem clamp_outLevel (σ : State) (stmt : Statement) (input : Level) :
    (σ.outLevel stmt input).clamp = σ.outLevel stmt input := by
  unfold outLevel
  split
  · exact Level.clamp_untainted
  · exact Level.clamp_tainted
  · exact Level.clamp_join _ _
  · exact Level.clamp_join _ _
  · split
    · exact Level.clamp_untainted
    · exact Level.clamp_join _ _
  · exact Level.clamp_clamp _

/-- A statement that reads joins the levels of its read set to the level that flows into it. -/
theorem outLevel_eq_join {σ : State} {stmt : Statement}
    (hreads : stmt.kind = .assertion ∨ stmt.passesOn = true) (input : Level) :
    σ.outLevel stmt input = input.join (.joinAll ((σ.readSet stmt).map σ.level)) := by
  cases hstmt : stmt.kind with
  | assignment => simp [outLevel, readSet, hstmt, level_read]
  | assertion => simp [outLevel, readSet, hstmt, level_read]
  | methodCall =>
      have hmethod : isSanitizerName stmt.method = false := by
        simpa [hstmt, Statement.passesOn] using hreads
      simp only [outLevel, readSet, hstmt, hmethod, Bool.false_eq_true, if_false]
      rw [levelOfAll_eq_joinAll, Level.clamp_join_left]
      apply congrArg input.join
      apply Level.joinAll_eq_of_mem_iff
      simp only [List.mem_map, mem_ascending, implies_true]
  | _ => simp [hstmt, Statement.passesOn] at hreads

theorem outLevel_eq_joinAll {σ : State} {stmt : Statement} (hkind : stmt.kind ≠ .userInput) :
    σ.outLevel stmt .untainted = .joinAll ((σ.readSet stmt).map σ.level) := by
  by_cases hreads : stmt.kind = .assertion ∨ stmt.passesOn = true
  · rw [outLevel_eq_join hreads, Level.untainted_join, Level.clamp_joinAll]
  · -- A statement that neither asserts nor passes on reads nothing.
    cases hstmt : stmt.kind with
    | userInput => exact absurd hstmt hkind
    | sanitizer => simp [outLevel, readSet, hstmt]
    | other name => simp [outLevel, readSet, hstmt]
    | methodCall =>
        have hmethod : isSanitizerName stmt.method = true := by
          simpa [hstmt, Statement.passesOn] using hreads
        simp [outLevel, readSet, hstmt, hmethod]
    | _ => simp [hstmt, Statement.passesOn] at hreads

/-- **The level that a statement computes is that of the variables it reads.** An expression has the
level to which the variables it names join. These are tracked, in strictly ascending order, and
exactly those that its dotted names stand for. A statement reads what its operands name, and from
an untainted input it computes the join of what it reads, unless it is a user input; an assignment,
an assertion and a call that is no sanitizer's join this to any input. -/
theorem transfer_agrees_with_readSet (σ : State) :
    (∀ expression,
      (σ.read expression).level = .joinAll ((σ.read expression).names.map σ.level) ∧
      (σ.read expression).names.Pairwise (· < ·) ∧
      (∀ name ∈ (σ.read expression).names, σ.tracks name = true) ∧
      ∀ name, name ∈ (σ.read expression).names ↔
        ∃ path ∈ dottedNames (stripLiterals expression), σ.longestTracked? path = some name) ∧
    (∀ stmt, (σ.readSet stmt).Pairwise (· < ·) ∧
      ∀ name, name ∈ σ.readSet stmt ↔
        ∃ operand ∈ stmt.operands, name ∈ (σ.read operand).names) ∧
    (∀ stmt, stmt.kind ≠ .userInput →
      (σ.transfer stmt .untainted).2 = .joinAll ((σ.readSet stmt).map σ.level)) ∧
    ∀ stmt input,
      stmt.kind = .assignment ∨ stmt.kind = .assertion ∨
        stmt.kind = .methodCall ∧ isSanitizerName stmt.method = false →
      (σ.transfer stmt input).2 = input.join (.joinAll ((σ.readSet stmt).map σ.level)) := by
  refine ⟨fun expression => ?_, fun stmt => ⟨?_, fun name => mem_readSet_iff⟩,
    fun stmt hkind => outLevel_eq_joinAll hkind, fun stmt input hreads => ?_⟩
  · exact ⟨level_read σ expression, ascends_names_read σ expression,
      fun name hname => tracks_of_mem_read hname, fun name => mem_names_read_iff⟩
  · rw [readSet_eq_ascending]
    exact ascends_ascending _
  · refine outLevel_eq_join ?_ input
    rcases hreads with hstmt | hstmt | ⟨hstmt, hmethod⟩
    · exact .inr (by simp [Statement.passesOn, hstmt])
    · exact .inl hstmt
    · exact .inr (by simp [Statement.passesOn, hstmt, hmethod])

/-- User input in `x`, and a level between the ends in `x.id`. -/
def inputAndId : State :=
  (State.empty.write "x.id" .possiblyTainted none).run [
    { kind := .userInput, target := "x", source := "user" }]

/-- A call whose arguments name both variables, one of them in a call of its own. -/
def queryOfId : Statement where
  kind := .methodCall
  method := "query"
  args := ["'x' + trim(x.id)", "x.name"]

theorem queryOfId_agrees_with_readSet :
    inputAndId.readSet queryOfId = ["x", "x.id"] ∧
      queryOfId.kind ≠ .userInput ∧
      (inputAndId.transfer queryOfId .untainted).2 =
        .joinAll ((inputAndId.readSet queryOfId).map inputAndId.level) ∧
      isSanitizerName queryOfId.method = false ∧
      (inputAndId.transfer queryOfId ⟨-3⟩).2 =
        Level.join ⟨-3⟩ (.joinAll ((inputAndId.readSet queryOfId).map inputAndId.level)) ∧
      (inputAndId.transfer queryOfId ⟨-3⟩).2 = .tainted := by
  obtain ⟨_, _, hfrom, hjoined⟩ := transfer_agrees_with_readSet inputAndId
  have hkind : queryOfId.kind ≠ .userInput := by decide
  have hmethod : isSanitizerName queryOfId.method = false := by decide +kernel
  exact ⟨by decide +kernel, hkind, hfrom queryOfId hkind, hmethod,
    hjoined queryOfId ⟨-3⟩ (.inr (.inr ⟨rfl, hmethod⟩)), by decide +kernel⟩

end State

end Shortfall.Taint

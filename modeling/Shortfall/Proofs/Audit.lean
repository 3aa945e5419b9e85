import Mathlib.Data.List.TakeWhile
import Shortfall.Command.History
import Shortfall.Proofs.Files.Rotation
import Shortfall.Proofs.Json.RoundTrip
import Shortfall.Proofs.Redaction.Rules

/-!
# The audit log, read back

An event is written as one line and read back from it, whatever it holds, as long as its texts are
well-formed and its numbers have 64 bits (`Recordable`). So a log that was written from the start
and has room for all events gives them back, redacted, in the order of writing. There is one
exception: the reader ends with an error at a line that is too long for it, although the log has
room for many such lines. It still gives the events in front of that line, but nobody shows them.

## Main results

* `parse?_compact`: the line of an event is read as the event.
* `load_written`: what a log gives back after events were written to it.
-/

namespace Shortfall.Audit

open Json Json.Decoder

/-! ## Events -/

/-- An event that a line can hold: its texts are well-formed and its numbers have 64 bits. -/
structure Event.Recordable (event : Event) : Prop where
  runId : event.runId.isWellFormed = true
  timestamp : event.timestamp.isWellFormed = true
  command : event.command.isWellFormed = true
  inputs : ∀ input ∈ event.inputs, input.isWellFormed = true
  strategy : event.strategy.isWellFormed = true
  additional : ∀ name ∈ event.additional, name.isWellFormed = true
  counts : ∀ summary ∈ event.summary?, ∀ count ∈
    [summary.total, summary.critical, summary.high, summary.medium, summary.low], IsWord count
  violations : IsWord event.violations
  durationMs : IsWord event.durationMs
  error : event.error.isWellFormed = true

theorem Event.Recordable.replace {event : Event} (h : event.Recordable) {command error : Text}
    {inputs : List Text} (hcommand : command.isWellFormed = true)
    (hinputs : ∀ input ∈ inputs, input.isWellFormed = true) (herror : error.isWellFormed = true) :
    { event with command, inputs, error }.Recordable :=
  { h with command := hcommand, inputs := hinputs, error := herror }

theorem Event.Recordable.redacted {event : Event} (h : event.Recordable) :
    event.redacted.Recordable := by
  have hinputs : ∀ input ∈ event.inputs.map Redaction.redact, input.isWellFormed = true := by
    intro input hinput
    obtain ⟨known, hknown, rfl⟩ := List.mem_map.mp hinput
    exact Redaction.isWellFormed_redact (h.inputs known hknown)
  rw [Event.redacted]
  exact h.replace (Redaction.isWellFormed_redact h.command) hinputs
    (Redaction.isWellFormed_redact h.error)

private theorem readsBack_summary {summary : Gap.Summary} (h : ∀ count ∈
    [summary.total, summary.critical, summary.high, summary.medium, summary.low], IsWord count)
    (room : Nat) :
    summaryDecoder.ReadsBack (room + 1) {} (summaryJson summary).compact summary := by
  simp only [List.forall_mem_cons] at h
  obtain ⟨htotal, hcritical, hhigh, hmedium, hlow, _⟩ := h
  refine readsBack_recordWith knowsPlain_general ⟨by decide +kernel, by decide +kernel⟩
    (List.cons_ne_nil _ _) ?_
  refine Fills.of_eq ((Fills.member 0 rfl (readsBack_int htotal _ _)).append <|
    (Fills.member 1 rfl (readsBack_int hcritical _ _)).append <|
    (Fills.member 2 rfl (readsBack_int hhigh _ _)).append <|
    (Fills.member 3 rfl (readsBack_int hmedium _ _)).append <|
    Fills.member 4 rfl (readsBack_int hlow _ _)) ?_
  rfl

/-- A list while it is read; an empty one is not written. -/
def cells (items : List Text) : Option (Cells Text) :=
  if items.isEmpty then none else some { items }

private theorem itemsOf_cells (items : List Text) : itemsOf (cells items) = items := by
  cases items <;> rfl

/-- An event as it is read from its line. -/
def Event.draft (event : Event) : Draft where
  event := { event with inputs := [], additional := [] }
  inputs := cells event.inputs
  additional := cells event.additional

private theorem Event.finished_draft (event : Event) : event.draft.finished = event := by
  rw [Draft.finished, Event.draft, itemsOf_cells, itemsOf_cells]

section Members

variable {α β : Type} {fields : List (Decoder.Field α)} {room : Nat} {record : α} {name : Text}

/-- A member that is left out leaves its field as it is. -/
theorem fills_memberIf {decoder : Decoder β} {part : α → β} {replace : α → β → α} {present : Bool}
    {value : Json} (index : Nat) (new : β)
    (hfield : fields[index]? = some (.of name decoder part replace))
    (hsame : ∀ record, replace record (part record) = record)
    (hpresent : present = true → decoder.ReadsBack room (part record) value.compact new)
    (habsent : present = false → new = part record) :
    Fills fields room record (memberIf present name value) (replace record new) := by
  cases present with
  | true => exact Fills.member index hfield (hpresent rfl)
  | false =>
      rw [habsent rfl, hsame]
      exact .nil

private theorem fills_text {part : α → Text} {replace : α → Text → α} {text : Text} (index : Nat)
    (hfield : fields[index]? = some (.of name .text part replace))
    (hsame : ∀ record, replace record (part record) = record) (hold : part record = [])
    (h : text.isWellFormed = true) :
    Fills fields room record (memberIf (!text.isEmpty) name (.string text))
      (replace record text) := by
  refine fills_memberIf index text hfield hsame (fun _ => readsBack_text h _ _) fun hempty => ?_
  rw [Bool.not_eq_false', List.isEmpty_iff] at hempty
  rw [hempty, hold]

private theorem fills_texts {part : α → Option (Cells Text)} {replace : α → Option (Cells Text) → α}
    {items : List Text} (index : Nat)
    (hfield : fields[index]? = some (.of name .texts part replace))
    (hsame : ∀ record, replace record (part record) = record) (hold : part record = none)
    (h : ∀ item ∈ items, item.isWellFormed = true) :
    Fills fields room record (memberIf (!items.isEmpty) name (.texts items))
      (replace record (cells items)) := by
  refine fills_memberIf index (cells items) hfield hsame (fun hsome => ?_) fun hempty => ?_
  · rw [Bool.not_eq_true'] at hsome
    rw [hold, cells, hsome]
    exact readsBack_texts h room
  · rw [Bool.not_eq_false'] at hempty
    rw [hold, cells, hempty]
    rfl

private theorem fills_summary {part : α → Option Gap.Summary} {replace : α → Option Gap.Summary → α}
    {event : Event} (index : Nat)
    (hfield : fields[index]? = some (.of "summary" (.optional {} summaryDecoder) part replace))
    (hsame : ∀ record, replace record (part record) = record) (hold : part record = none)
    (h : event.Recordable) :
    Fills fields (room + 1) record event.summary (replace record event.summary?) := by
  rw [Event.summary]
  cases hsummary : event.summary? with
  | none =>
      have hkeep := hsame record
      rw [hold] at hkeep
      rw [hkeep]
      exact .nil
  | some summary =>
      refine Fills.member index hfield ?_
      rw [hold]
      exact readsBack_optional (readsBack_summary (h.counts summary hsummary) room)

end Members

private theorem readsBack_event {event : Event} (h : event.Recordable) (room : Nat) :
    eventDecoder.ReadsBack (room + 2) {} event.json.compact event.draft := by
  have hzero : decide (event.violations ≠ 0) = false → event.violations = 0 := by simp
  refine readsBack_recordWith knowsPlain_plain ⟨by decide +kernel, by decide +kernel⟩
    (List.cons_ne_nil _ _) ?_
  -- The groups of members, in the order in which they are written; each is told by the number of
  -- its field.
  refine Fills.of_eq (.append (.append (.append (.append (.append (.append (.append
    ((Fills.member 0 rfl (readsBack_text h.runId _ _)).append <|
      (Fills.member 1 rfl (readsBack_text h.timestamp _ _)).append <|
      Fills.member 2 rfl (readsBack_text h.command _ _))
    (fills_texts 3 rfl (fun _ => rfl) rfl h.inputs))
    (fills_text 4 rfl (fun _ => rfl) rfl h.strategy))
    (fills_texts 5 rfl (fun _ => rfl) rfl h.additional))
    (fills_summary 6 rfl (fun _ => rfl) rfl h))
    (fills_memberIf 7 event.violations rfl (fun _ => rfl)
      (fun _ => readsBack_int h.violations _ _) hzero))
    (Fills.member 8 rfl (readsBack_int h.durationMs _ _)))
    (fills_text 9 rfl (fun _ => rfl) rfl h.error)) ?_
  rfl

/-- The line of an event is read as the event. -/
theorem parse?_compact {event : Event} (h : event.Recordable) :
    Event.parse? event.json.compact = some event := by
  have hread := readsBack_event h (maxDepth - 2) [] (by simp [EndsNumeral])
  rw [List.append_nil, show maxDepth - 2 + 2 = maxDepth from rfl] at hread
  rw [Event.parse?, run?, hread]
  exact congrArg some event.finished_draft

theorem oneLine_memberIf {present : Bool} {name : Text} {value : Json} (h : OneLine value.compact) :
    ∀ member ∈ memberIf present name value, OneLine member.2.compact := by
  intro member hmember
  cases present with
  | false => exact absurd hmember List.not_mem_nil
  | true =>
      obtain rfl := List.mem_singleton.mp hmember
      exact h

/-- An event is written on one line. -/
theorem Event.oneLine_compact (event : Event) : OneLine event.json.compact := by
  have hidentity : ∀ member ∈ event.identity, OneLine member.2.compact := by
    intro member hmember
    simp only [Event.identity, List.mem_cons, List.not_mem_nil, or_false] at hmember
    rcases hmember with rfl | rfl | rfl <;> exact oneLine_quoteText _
  have hsummary : ∀ member ∈ event.summary, OneLine member.2.compact := by
    intro member hmember
    rw [Event.summary] at hmember
    cases hsummary : event.summary? with
    | none => rw [hsummary] at hmember; exact absurd hmember List.not_mem_nil
    | some summary =>
        rw [hsummary] at hmember
        obtain rfl := List.mem_singleton.mp hmember
        refine oneLine_object fun member hcount => ?_
        simp only [List.mem_cons, List.not_mem_nil, or_false] at hcount
        rcases hcount with rfl | rfl | rfl | rfl | rfl <;> exact oneLine_ofInt _
  have hduration : ∀ member ∈ event.duration, OneLine member.2.compact := by
    intro member hmember
    obtain rfl := List.mem_singleton.mp hmember
    exact oneLine_ofInt _
  refine oneLine_object ?_
  simp only [List.forall_mem_append]
  exact ⟨⟨⟨⟨⟨⟨⟨hidentity, oneLine_memberIf (oneLine_texts _)⟩,
    oneLine_memberIf (oneLine_quoteText _)⟩, oneLine_memberIf (oneLine_texts _)⟩, hsummary⟩,
    oneLine_memberIf (oneLine_ofInt _)⟩, hduration⟩, oneLine_memberIf (oneLine_quoteText _)⟩

private theorem dropReturn_compact (event : Event) :
    dropReturn event.json.compact = event.json.compact := by
  have hlast : event.json.compact.getLast? = some 0x7D := by
    rw [Event.json, compact]
    exact List.getLast?_concat
  rw [dropReturn, hlast]
  rfl

/-! ## Lines -/

private theorem splitAtByte_line {line : Text} (h : OneLine line) (rest : Text) :
    Text.splitAtByte 0x0A (line ++ "\n" ++ rest) = line :: Text.splitAtByte 0x0A rest := by
  have hline : line ++ "\n" ++ rest = line ++ 0x0A :: rest := List.append_assoc ..
  rw [hline, Text.splitAtByte_append_cons, Text.splitAtByte_of_not_mem h]
  rfl

/-- The content of a log with the given events. -/
def content (events : List Event) : Text := events.flatMap fun event => event.json.compact ++ "\n"

private theorem splitAtByte_content (events : List Event) :
    Text.splitAtByte 0x0A (content events) = events.map (·.json.compact) ++ [[]] := by
  induction events with
  | nil => rfl
  | cons event events ih =>
      have hcontent : content (event :: events) =
          event.json.compact ++ "\n" ++ content events := List.flatMap_cons
      rw [hcontent, splitAtByte_line event.oneLine_compact, ih]
      rfl

private theorem length_compact_le {event : Event} {events : List Event} (h : event ∈ events) :
    event.json.compact.length ≤ (content events).length := by
  have hline : (event.json.compact ++ ("\n" : Text)).Sublist (content events) := by
    rw [content, List.flatMap_def]
    exact List.sublist_flatten_of_mem
      (List.mem_map_of_mem (f := fun event : Event => event.json.compact ++ ("\n" : Text)) h)
  exact ((List.sublist_append_left _ _).trans hline).length_le

/-- An event whose line is read. -/
def Event.Fits (event : Event) : Prop := event.json.compact.length ≤ maxLineLength

instance (event : Event) : Decidable event.Fits := inferInstanceAs (Decidable (_ ≤ _))

/-- A log gives its events back, up to the first one that does not fit. -/
theorem parse_content {events : List Event} (h : ∀ event ∈ events, event.Recordable) :
    parse (content events) =
      { events := events.takeWhile fun event => event.Fits
        error? := if ∀ event ∈ events, event.Fits then none else some .lineTooLong } := by
  rw [parse, splitAtByte_content]
  induction events with
  | nil => rfl
  | cons event events ih =>
      rw [List.forall_mem_cons] at h
      rw [List.map_cons, List.cons_append, eventsOfLines, dropReturn_compact, parse?_compact h.1,
        ih h.2]
      by_cases hfits : event.Fits
      · rw [if_neg (Nat.not_lt.mpr hfits)]
        simp only [List.takeWhile_cons, List.forall_mem_cons, hfits, decide_true, if_true, true_and]
        rfl
      · rw [if_pos (Nat.lt_of_not_le hfits)]
        simp only [List.takeWhile_cons, List.forall_mem_cons, hfits, decide_false,
          Bool.false_eq_true, if_false, false_and]

/-! ## Logs -/

/-- An event that is to be written, with the identity and the times at hand. -/
structure Entry where
  runId : Text
  timestamp : Text
  /-- The time for the name of a log that is moved aside. -/
  fileTime : Text := []
  event : Event

/-- The event with what it lacks of an identity and a time. -/
def Entry.completed (entry : Entry) : Event :=
  { entry.event with
    runId := if entry.event.runId.isEmpty then entry.runId else entry.event.runId
    timestamp := if entry.event.timestamp.isEmpty then entry.timestamp else entry.event.timestamp }

def Entry.line (entry : Entry) : Text := entry.event.line entry.runId entry.timestamp

section Writing

variable {m : Type → Type} [Monad m] [Files m] (log : RotatingFile)

/-- Writes one entry after another to a log, whose size is given if it is open. -/
def writeAll : (size? : Option Nat) → List Entry → m (Except RotatingFile.Error PUnit)
  | _, [] => return .ok ⟨⟩
  | size?, entry :: entries => do
      match ← log.append entry.fileTime entry.line size? with
      | (.error error, _) => return .error error
      | (.ok _, next) => writeAll next entries

/-- Writes the entries of several runs, each of which opens the log anew. -/
def writeRuns : List (List Entry) → m (Except RotatingFile.Error PUnit)
  | [] => return .ok ⟨⟩
  | entries :: runs => do
      match ← writeAll log none entries with
      | .error error => return .error error
      | .ok _ => writeRuns runs

end Writing

/-- The events that entries leave in a log. -/
def recorded (entries : List Entry) : List Event := entries.map (·.completed.redacted)

private theorem Entry.line_eq (entry : Entry) : entry.line = content (recorded [entry]) := by
  rw [recorded, List.map_singleton, content, List.flatMap_singleton]
  rfl

theorem content_append (front back : List Event) :
    content (front ++ back) = content front ++ content back :=
  List.flatMap_append

theorem recorded_append (front back : List Entry) :
    recorded (front ++ back) = recorded front ++ recorded back :=
  List.map_append

private theorem recordable_recorded {entries : List Entry}
    (h : ∀ entry ∈ entries, entry.completed.Recordable) :
    ∀ event ∈ recorded entries, event.Recordable := by
  intro event hevent
  obtain ⟨entry, hentry, rfl⟩ := List.mem_map.mp hevent
  exact (h entry hentry).redacted

theorem recorded_cons (events : List Event) (entry : Entry) (entries : List Entry) :
    events ++ recorded (entry :: entries) = events ++ recorded [entry] ++ recorded entries := by
  rw [List.append_assoc, ← recorded_append]
  rfl

theorem content_append_line (events : List Event) (entry : Entry) :
    content events ++ entry.line = content (events ++ recorded [entry]) := by
  rw [entry.line_eq, content_append]

/-- The first entry needs no more room than all of them. -/
theorem length_first_le (events : List Event) (entry : Entry) (entries : List Entry) :
    (content events).length + entry.line.length ≤
      (content (events ++ recorded (entry :: entries))).length := by
  rw [recorded_cons, content_append, ← content_append_line, List.length_append, List.length_append]
  omega

section Runs

variable {log : RotatingFile} {tree : FileTree} {events : List Event} {entries : List Entry}

/-- A log has the given events: as a file with their lines, or without any, on a fresh path. -/
def Holds (log : RotatingFile) (tree : FileTree) (events : List Event) : Prop :=
  tree.read log.path = .ok (content events) ∨ log.Fresh tree ∧ events = []

private theorem run_writeAll_cons {entry : Entry} {size? next : Option Nat} {after : FileTree}
    (h : StateT.run (log.append entry.fileTime entry.line size? : StateM FileTree _) tree =
      ((.ok ⟨⟩, next), after)) (entries : List Entry) :
    StateT.run (writeAll log size? (entry :: entries) : StateM FileTree _) tree =
      StateT.run (writeAll log next entries : StateM FileTree _) after := by
  rw [writeAll, FileTree.run_bind_of_run h]

/-- Entries are written to a log that is open and has room for them. -/
theorem run_writeAll_of_open (h : tree.read log.path = .ok (content events))
    (hroom : ((content (events ++ recorded entries)).length : Int) ≤ log.limit) :
    ∃ after, StateT.run (writeAll log (some (content events).length) entries : StateM FileTree _)
        tree = (.ok ⟨⟩, after) ∧
      after.read log.path = .ok (content (events ++ recorded entries)) := by
  induction entries generalizing tree events with
  | nil => exact ⟨tree, rfl, by rw [recorded, List.map_nil, List.append_nil, h]⟩
  | cons entry entries ih =>
      have hfirst := length_first_le events entry entries
      have hline : ((content events).length + entry.line.length : Int) ≤ log.limit := by omega
      obtain ⟨next, happend, hread⟩ := RotatingFile.run_append_of_open h entry.fileTime hline
      rw [content_append_line] at happend hread
      rw [recorded_cons] at hroom ⊢
      obtain ⟨after, hrest, hafter⟩ := ih hread hroom
      exact ⟨after, (run_writeAll_cons happend entries).trans hrest, hafter⟩

/-- The entries behind the first one are written to the log that was opened for it. -/
theorem run_writeAll_of_first {entry : Entry} {size? : Option Nat} {next : FileTree}
    (happend : StateT.run (log.append entry.fileTime entry.line size? : StateM FileTree _) tree =
      ((.ok ⟨⟩, some (content (events ++ recorded [entry])).length), next))
    (hread : next.read log.path = .ok (content (events ++ recorded [entry])))
    (hroom : ((content (events ++ recorded (entry :: entries))).length : Int) ≤ log.limit) :
    ∃ after, StateT.run (writeAll log size? (entry :: entries) : StateM FileTree _) tree =
        (.ok ⟨⟩, after) ∧
      after.read log.path = .ok (content (events ++ recorded (entry :: entries))) := by
  rw [recorded_cons] at hroom ⊢
  obtain ⟨after, hrest, hafter⟩ := run_writeAll_of_open hread hroom
  exact ⟨after, (run_writeAll_cons happend entries).trans hrest, hafter⟩

/-- Entries are written to a log that is opened again for them, if it stays below its limit. -/
theorem run_writeAll_of_read (h : tree.read log.path = .ok (content events))
    (hbelow : ((content (events ++ recorded entries)).length : Int) < log.limit) :
    ∃ after, StateT.run (writeAll log none entries : StateM FileTree _) tree = (.ok ⟨⟩, after) ∧
      after.read log.path = .ok (content (events ++ recorded entries)) := by
  cases entries with
  | nil => exact ⟨tree, rfl, by rw [recorded, List.map_nil, List.append_nil, h]⟩
  | cons entry entries =>
      have hfirst := length_first_le events entry entries
      have hline : ((content events).length + entry.line.length : Int) < log.limit := by omega
      obtain ⟨next, happend, hread⟩ := RotatingFile.run_append_of_read h entry.fileTime hline
      rw [content_append_line] at happend hread
      exact run_writeAll_of_first happend hread (Int.le_of_lt hbelow)

/-- Entries are written to a fresh log, up to its limit. -/
theorem run_writeAll_of_fresh (h : log.Fresh tree)
    (hroom : ((content (recorded entries)).length : Int) ≤ log.limit) :
    ∃ after, StateT.run (writeAll log none entries : StateM FileTree _) tree = (.ok ⟨⟩, after) ∧
      Holds log after (recorded entries) := by
  cases entries with
  | nil => exact ⟨tree, rfl, .inr ⟨h, rfl⟩⟩
  | cons entry entries =>
      have hfirst := length_first_le [] entry entries
      rw [List.nil_append] at hfirst
      have hline : (entry.line.length : Int) ≤ log.limit := by omega
      obtain ⟨next, happend, hread⟩ := RotatingFile.run_append_of_fresh h entry.fileTime hline
      have hempty : entry.line = content ([] ++ recorded [entry]) := entry.line_eq
      rw [hempty] at hread
      obtain ⟨after, hwrite, hafter⟩ :=
        run_writeAll_of_first (by rw [happend, ← hempty]) hread hroom
      exact ⟨after, hwrite, .inl hafter⟩

/-- Runs write to a log one after another, while it stays below its limit. -/
theorem run_writeRuns {runs : List (List Entry)} (h : Holds log tree events)
    (hbelow : ((content (events ++ recorded runs.flatten)).length : Int) < log.limit) :
    ∃ after, StateT.run (writeRuns log runs : StateM FileTree _) tree = (.ok ⟨⟩, after) ∧
      Holds log after (events ++ recorded runs.flatten) := by
  induction runs generalizing tree events with
  | nil => exact ⟨tree, rfl, by rwa [List.flatten_nil, recorded, List.map_nil, List.append_nil]⟩
  | cons entries runs ih =>
      rw [List.flatten_cons, recorded_append, ← List.append_assoc] at hbelow ⊢
      have hfirst : ((content (events ++ recorded entries)).length : Int) < log.limit := by
        rw [content_append, List.length_append] at hbelow
        omega
      obtain ⟨next, hwrite, hnext⟩ : ∃ next,
          StateT.run (writeAll log none entries : StateM FileTree _) tree = (.ok ⟨⟩, next) ∧
          Holds log next (events ++ recorded entries) := by
        rcases h with hread | ⟨hfresh, rfl⟩
        · obtain ⟨next, hwrite, hnext⟩ := run_writeAll_of_read hread hfirst
          exact ⟨next, hwrite, .inl hnext⟩
        · exact run_writeAll_of_fresh hfresh (Int.le_of_lt hfirst)
      obtain ⟨after, hrest, hafter⟩ := ih hnext hbelow
      refine ⟨after, ?_, hafter⟩
      rw [writeRuns, FileTree.run_bind_of_run hwrite]
      exact hrest

/-- What is read of a log that has the given events. -/
theorem run_load_of_holds (h : Holds log tree events) :
    StateT.run (load log.path : StateM FileTree _) tree = (parse (content events), tree) := by
  rw [load, FileTree.run_bind_of_run (FileTree.run_read tree log.path)]
  rcases h with hread | ⟨hfresh, rfl⟩
  · rw [hread]
    rfl
  · rw [FileTree.read, hfresh.missing]
    rfl

/-- Runs write to a fresh log, which may reach its limit if it is opened once. -/
theorem run_writeRuns_of_fresh {runs : List (List Entry)} (h : log.Fresh tree)
    (hroom : ((content (recorded runs.flatten)).length : Int) ≤ log.limit)
    (hbelow : 1 < runs.length → ((content (recorded runs.flatten)).length : Int) ≠ log.limit) :
    ∃ after, StateT.run (writeRuns log runs : StateM FileTree _) tree = (.ok ⟨⟩, after) ∧
      Holds log after (recorded runs.flatten) := by
  match runs with
  | [] => exact ⟨tree, rfl, .inr ⟨h, rfl⟩⟩
  | [entries] =>
      rw [List.flatten_singleton] at hroom ⊢
      obtain ⟨after, hwrite, hafter⟩ := run_writeAll_of_fresh h hroom
      refine ⟨after, ?_, hafter⟩
      rw [writeRuns, FileTree.run_bind_of_run hwrite]
      rfl
  | first :: second :: rest =>
      exact run_writeRuns (.inr ⟨h, rfl⟩)
        (Int.lt_iff_le_and_ne.mpr ⟨hroom, hbelow (by simp)⟩)

/-- **A log gives back what was written to it**, redacted and in the order of writing, up to the
first event whose line is too long to be read; if there is one, the reading ends with an error. The
log is fresh and has room for all events: each run opens it anew, and a log that would come to its
limit when it is opened is moved aside. An event that is longer than the limit is never written. -/
theorem load_written (hfresh : log.Fresh tree) {runs : List (List Entry)}
    (h : ∀ entry ∈ runs.flatten, entry.completed.Recordable)
    (hroom : ((content (recorded runs.flatten)).length : Int) ≤ log.limit)
    (hbelow : 1 < runs.length → ((content (recorded runs.flatten)).length : Int) ≠ log.limit) :
    ∃ written,
      StateT.run (writeRuns log runs : StateM FileTree _) tree = (.ok ⟨⟩, written) ∧
      StateT.run (load log.path : StateM FileTree _) written =
        ({ events := (recorded runs.flatten).takeWhile fun event => event.Fits
           error? := if ∀ event ∈ recorded runs.flatten, event.Fits then none
             else some .lineTooLong }, written) ∧
      ∀ entry : Entry, log.limit < entry.line.length → ∀ size?,
        StateT.run (log.append entry.fileTime entry.line size? : StateM FileTree _) written =
          ((.error (.tooLong entry.line.length log.limit), size?), written) := by
  obtain ⟨written, hwrite, hholds⟩ := run_writeRuns_of_fresh hfresh hroom hbelow
  refine ⟨written, hwrite, ?_, fun entry hlong size? => ?_⟩
  · rw [run_load_of_holds hholds, parse_content (recordable_recorded h)]
  · exact RotatingFile.run_append_of_tooLong hlong written entry.fileTime size?

end Runs

/-- Two runs of which the second, without an identity of its own, ended in an error. -/
def twoRuns : List Entry := [
  { runId := "r0", timestamp := "t0"
    event :=
      { runId := "r1", timestamp := "t1", command := "analyze", inputs := ["a.json"]
        strategy := "default", additional := ["x"]
        summary? := some { total := 2, high := 2 }, durationMs := 5 } },
  { runId := "r2", timestamp := "t2"
    event := { command := "taint", violations := -1, error := "pwd=abcdefgh" } }]

private theorem recordable_twoRuns : ∀ entry ∈ twoRuns, entry.completed.Recordable := by
  intro entry hentry
  simp only [twoRuns, List.mem_cons, List.not_mem_nil, or_false] at hentry
  rcases hentry with rfl | rfl <;> constructor <;> decide

/-- A log of ten megabytes, with one older log. -/
def auditLog : RotatingFile := logAt "audit.log" 10 1

/-- A directory without the log, but with two older ones. -/
def olderLogs : FileTree := .folder [
  ("audit-2024-01-01T00-00-00.000.log", .file "\n"),
  ("audit-2024-01-02T00-00-00.000.log", .file "\n")]

private theorem limit_auditLog : auditLog.limit = 10485760 := by decide

private theorem fresh_olderLogs : auditLog.Fresh olderLogs :=
  RotatingFile.fresh_of_directory rfl rfl rfl

/-- What the two runs leave in a log. -/
def twoEvents : List Event := [
  { runId := "r1", timestamp := "t1", command := "analyze", inputs := ["a.json"]
    strategy := "default", additional := ["x"]
    summary? := some { total := 2, high := 2 }, durationMs := 5 },
  { runId := "r2", timestamp := "t2", command := "taint", violations := -1
    error := "[REDACTED]" }]

theorem recorded_twoRuns : recorded twoRuns = twoEvents := by decide +kernel

private theorem length_twoEvents : (content twoEvents).length ≤ 1000 := by decide +kernel

theorem fits_twoEvents : ∀ event ∈ twoEvents, event.Fits := by
  intro event hevent
  have hline := length_compact_le hevent
  have hlength := length_twoEvents
  rw [Event.Fits, maxLineLength]
  omega

theorem flatten_singletons (entries : List Entry) : (entries.map ([·])).flatten = entries := by
  rw [← List.flatMap_def, List.flatMap_singleton']

theorem twoRuns_read_back : ∃ written,
    StateT.run (writeRuns auditLog (twoRuns.map ([·])) : StateM FileTree _) olderLogs =
      (.ok ⟨⟩, written) ∧
    StateT.run (load "audit.log" : StateM FileTree _) written =
      ({ events := twoEvents }, written) := by
  have hrecorded : recorded (twoRuns.map ([·])).flatten = twoEvents := by
    rw [flatten_singletons, recorded_twoRuns]
  have hbelow : ((content twoEvents).length : Int) < auditLog.limit := by
    have hlength := length_twoEvents
    rw [limit_auditLog]
    omega
  obtain ⟨written, hwrite, hload, _⟩ := load_written fresh_olderLogs
    ((flatten_singletons twoRuns).symm ▸ recordable_twoRuns)
    (hrecorded ▸ Int.le_of_lt hbelow) (fun _ => hrecorded ▸ Int.ne_of_lt hbelow)
  refine ⟨written, hwrite, hload.trans (congrArg (·, written) ?_)⟩
  have hall : twoEvents.takeWhile (fun event => event.Fits) = twoEvents :=
    List.takeWhile_eq_self_iff.mpr fun event hevent => decide_eq_true (fits_twoEvents event hevent)
  rw [hrecorded, if_pos fits_twoEvents, hall]

/-! ## Long events -/

/-- An object is as much longer as the value of its last member is. -/
theorem length_object_concat (members : List (Text × Json)) (name : Text) (value : Json) :
    (object (members ++ [(name, value)])).compact.length =
      ((compactMembers members).flatMap (· ++ ("," : Text))).length + (quoteText name).length
        + value.compact.length + 3 := by
  have hparts : compactMembers (members ++ [(name, value)]) =
      compactMembers members ++ [quoteText name ++ ":" ++ value.compact] := by
    rw [compactMembers_eq_map, compactMembers_eq_map, List.map_append, List.map_singleton]
  have hsigns : ("\x7b" : Text).length = 1 ∧ (":" : Text).length = 1 ∧ ("\x7d" : Text).length = 1 :=
    ⟨rfl, rfl, rfl⟩
  rw [compact, hparts, Text.joinWith_concat]
  simp only [List.length_append, hsigns]
  omega

/-- A text of `n` letters. -/
def letters (n : Nat) : Text := Text.ofChars (List.replicate n 'A')

private theorem pieces_letters (n : Nat) : (letters n).pieces = List.replicate n (.char 'A') := by
  rw [← List.map_replicate]
  exact Text.pieces_ofChars _

private theorem redact_letters (n : Nat) : Redaction.redact (letters n) = letters n := by
  refine Redaction.redact_of_subset_mark fun piece hpiece => ?_
  rw [pieces_letters] at hpiece
  rw [List.eq_of_mem_replicate hpiece]
  decide

private theorem length_quoteText_letters (n : Nat) : (quoteText (letters n)).length = n + 2 := by
  have hletter : (webEscape? 'A').getD (String.utf8EncodeChar 'A') = [0x41] := by decide
  simp [quoteText, quoteWith, pieces_letters, List.flatMap_replicate, hletter]

/-- A run that ended in an error of `n` letters. -/
def longRun (n : Nat) : Entry where
  runId := "r3"
  timestamp := "t3"
  event := { command := "taint", error := letters n }

private theorem recordable_longRun (n : Nat) : (longRun n).completed.Recordable where
  runId := rfl
  timestamp := rfl
  command := rfl
  inputs := by simp [longRun, Entry.completed]
  strategy := rfl
  additional := by simp [longRun, Entry.completed]
  counts := by simp [longRun, Entry.completed]
  violations := (by decide : IsWord 0)
  durationMs := (by decide : IsWord 0)
  error := Text.isWellFormed_ofChars _

private theorem redacted_longRun (n : Nat) : (longRun n).completed.redacted =
    { runId := "r3", timestamp := "t3", command := "taint", error := letters n } := by
  have hcommand : Redaction.redact "taint" = "taint" := by decide +kernel
  have hcompleted : (longRun n).completed =
      { runId := "r3", timestamp := "t3", command := "taint", error := letters n } := rfl
  rw [hcompleted, Event.redacted, hcommand, redact_letters, List.map_nil]

private theorem length_longRun (n : Nat) :
    (longRun (n + 1)).completed.redacted.json.compact.length = n + 78 := by
  let members : List (Text × Json) := [("run_id", .string "r3"), ("timestamp", .string "t3"),
    ("command", .string "taint"), ("duration_ms", .int 0)]
  have hjson : (longRun (n + 1)).completed.redacted.json =
      .object (members ++ [(Text.ofString "error", .string (letters (n + 1)))]) := by
    rw [redacted_longRun]
    rfl
  have hmembers : ((compactMembers members).flatMap (· ++ ("," : Text))).length = 65 := by
    decide
  have hname : (quoteText "error").length = 7 := by decide
  rw [hjson, length_object_concat, hmembers, hname, compact, length_quoteText_letters]
  omega

/-- **The long error of one run makes the log unreadable.** The runs before it are read, and no
command shows them. -/
theorem longRun_hides_twoRuns : ∃ written,
    StateT.run (writeRuns auditLog ((twoRuns ++ [longRun 65536]).map ([·])) : StateM FileTree _)
      olderLogs = (.ok ⟨⟩, written) ∧
    StateT.run (load "audit.log" : StateM FileTree _) written =
      ({ events := twoEvents, error? := some .lineTooLong }, written) ∧
    ∀ (settings : Settings) (options : Command.Options), settings.audit.path = "audit.log" →
      StateT.run (Command.runLog settings options : StateM FileTree _) written =
        (.failed (.auditLog .lineTooLong), written) := by
  have hlong : (longRun 65536).completed.redacted.json.compact.length = 65613 :=
    length_longRun 65535
  have hnot : ¬(longRun 65536).completed.redacted.Fits := by
    rw [Event.Fits, hlong]
    decide
  have hrecorded : recorded ((twoRuns ++ [longRun 65536]).map ([·])).flatten =
      twoEvents ++ [(longRun 65536).completed.redacted] := by
    rw [flatten_singletons, recorded_append, recorded_twoRuns, recorded, List.map_singleton]
  have hbelow : ((content (twoEvents ++ [(longRun 65536).completed.redacted])).length : Int) <
      auditLog.limit := by
    have hline : (content [(longRun 65536).completed.redacted]).length = 65614 := by
      rw [content, List.flatMap_singleton, List.length_append, hlong]
      rfl
    have hlength := length_twoEvents
    rw [content_append, List.length_append, hline, limit_auditLog]
    omega
  have hrecordable : ∀ event ∈ twoEvents ++ [(longRun 65536).completed.redacted],
      event.Recordable := by
    rw [List.forall_mem_append, List.forall_mem_singleton, ← recorded_twoRuns]
    exact ⟨recordable_recorded recordable_twoRuns, (recordable_longRun _).redacted⟩
  obtain ⟨written, hwrite, hholds⟩ := run_writeRuns_of_fresh fresh_olderLogs
    (hrecorded ▸ Int.le_of_lt hbelow) (fun _ => hrecorded ▸ Int.ne_of_lt hbelow)
  have hread : StateT.run (load "audit.log" : StateM FileTree _) written =
      ({ events := twoEvents, error? := some .lineTooLong }, written) := by
    refine (run_load_of_holds hholds).trans (congrArg (·, written) ?_)
    rw [hrecorded, parse_content hrecordable, if_neg, List.takeWhile_append_of_pos,
      List.takeWhile_cons_of_neg]
    · rw [List.append_nil]
    · simpa using hnot
    · exact fun event hevent => decide_eq_true (fits_twoEvents event hevent)
    · exact fun hall => hnot (hall _ (List.mem_append_right _ (List.mem_singleton_self _)))
  refine ⟨written, hwrite, hread, fun settings options hpath => ?_⟩
  rw [Command.runLog, hpath, FileTree.run_bind_of_run hread]
  rfl

end Shortfall.Audit

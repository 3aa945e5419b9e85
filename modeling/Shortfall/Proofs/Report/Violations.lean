import Shortfall.Command.Taint
import Shortfall.Proofs.Files
import Shortfall.Proofs.Redaction.Printed

/-!
# What the reports of statement programs show

The report for people shows each violation with its variable and its message redacted. The document
for programs shows them as they are. Both are printers of findings (`plainReport`,
`violationDocument`) that shed substance when the findings are redacted before. So each of them
shows what it would show of redacted findings only if there was nothing to redact.

## Main results

* `violationReport_eq`: the report prints redacted findings.
* `plainReport_redactAll_iff`, `violationDocument_redactAll_iff`: when redacting makes no
  difference.
* `taintOutput_eq`: what the command prints.
-/

namespace Shortfall

/-! ## Redacted findings -/

namespace Taint.Violation

def redacted (violation : Violation) : Violation :=
  { violation with
    culprit := Redaction.redact violation.culprit
    message := Redaction.redact violation.message }

/-- A rule finds a credential in the variable or in the message. -/
def IsExposed (violation : Violation) : Prop :=
  Redaction.matching violation.culprit ≠ [] ∨ Redaction.matching violation.message ≠ []

instance (violation : Violation) : Decidable violation.IsExposed :=
  inferInstanceAs (Decidable (_ ∨ _))

private theorem redacted_of_not_isExposed {violation : Violation} (h : ¬violation.IsExposed) :
    violation.redacted = violation := by
  have hkept : ∀ text, ¬Redaction.matching text ≠ [] → Redaction.redact text = text := by
    intro text hnone
    exact Redaction.applyAll_of_not_fires (List.Subset.refl _)
      (Redaction.matching_eq_nil_iff.mp (not_not.mp hnone))
  rw [IsExposed, not_or] at h
  rw [redacted, hkept _ h.1, hkept _ h.2]

end Taint.Violation

namespace Report

open Taint Redaction

def ProgramFindings.redacted (findings : ProgramFindings) : ProgramFindings :=
  { findings with violations := findings.violations.map Violation.redacted }

def redactAll (all : List ProgramFindings) : List ProgramFindings :=
  all.map ProgramFindings.redacted

/-- A credential stands in a violation of some program. -/
def IsExposed (all : List ProgramFindings) : Prop :=
  ∃ findings ∈ all, ∃ violation ∈ findings.violations, violation.IsExposed

instance (all : List ProgramFindings) : Decidable (IsExposed all) :=
  inferInstanceAs (Decidable (∃ findings ∈ all, _))

private theorem redactAll_of_not_isExposed {all : List ProgramFindings} (h : ¬IsExposed all) :
    redactAll all = all := by
  have heach : ∀ findings ∈ all, findings.redacted = findings := by
    intro findings hfindings
    have hviolations : findings.violations.map Violation.redacted = findings.violations := by
      refine (List.map_congr_left fun violation hviolation => ?_).trans (List.map_id _)
      refine Violation.redacted_of_not_isExposed fun hexposed => ?_
      exact h ⟨findings, hfindings, violation, hviolation, hexposed⟩
    rw [ProgramFindings.redacted, hviolations]
  exact (List.map_congr_left heach).trans (List.map_id all)

/-! ## The report for people -/

/-- The lines of a violation as it is. -/
def plainLines (violation : Violation) : List Text :=
  [("  [" : Text) ++ violation.severity.name.upper ++ "] " ++ violation.kind ++ "  "
      ++ violation.culprit,
    ("    " : Text) ++ violation.message]
  ++ sinkLines violation
  ++ (if violation.suggestedFix.isEmpty then []
      else [("    Fix:   " : Text) ++ violation.suggestedFix])

/-- The lines of a program with all texts as they are. -/
def programLines (findings : ProgramFindings) : List Text :=
  banner ("Taint program: " ++ findings.program)
  ++ (if findings.violations.isEmpty then [("  No security invariant violations." : Text)]
      else findings.violations.flatMap plainLines)
  ++ [[]]

/-- The report with all texts as they are. -/
def plainReport (all : List ProgramFindings) : Text :=
  lines (all.flatMap programLines
    ++ [Text.ofNat (violationTotal all) ++ " violation(s) in " ++ Text.ofNat all.length
      ++ " program(s)"])

private theorem violationTotal_redactAll (all : List ProgramFindings) :
    violationTotal (redactAll all) = violationTotal all := by
  rw [violationTotal, redactAll, List.foldl_map, violationTotal]
  simp only [ProgramFindings.redacted, List.length_map]

private theorem plainLines_redacted (violation : Violation) :
    plainLines violation.redacted = violationLines violation := by
  have hsinks : ∀ culprit message,
      sinkLines { violation with culprit, message } = sinkLines violation := fun _ _ => rfl
  rw [plainLines, violationLines, Violation.redacted, hsinks]

private theorem programLines_redacted (findings : ProgramFindings) :
    programLines findings.redacted = findingLines findings := by
  simp only [programLines, findingLines, ProgramFindings.redacted, List.isEmpty_map,
    List.flatMap_map, plainLines_redacted]

/-- **The report prints redacted findings.** -/
theorem violationReport_eq (all : List ProgramFindings) :
    violationReport all = plainReport (redactAll all) := by
  have hlines : (redactAll all).flatMap programLines = all.flatMap findingLines := by
    rw [redactAll, List.flatMap_map]
    exact List.flatMap_congr fun findings _ => programLines_redacted findings
  rw [violationReport, plainReport, hlines, violationTotal_redactAll, redactAll, List.length_map]

theorem lines_append (front back : List Text) : lines (front ++ back) = lines front ++ lines back :=
  List.flatMap_append

theorem lines_flatMap {α : Type} (f : α → List Text) (xs : List α) :
    lines (xs.flatMap f) = (xs.map fun x => lines (f x)).flatten := by
  rw [lines, List.flatMap_assoc, ← List.flatMap_def]
  rfl

private theorem sheds_plainLines {violation : Violation} {culprit message : Text} {lost more : Prop}
    (hculprit : Sheds lost culprit violation.culprit)
    (hmessage : Sheds more message violation.message) :
    Sheds (lost ∨ more) (lines (plainLines { violation with culprit, message }))
      (lines (plainLines violation)) := by
  have hpair : ∀ front back : Text, Sheds (lost ∨ more)
      (lines [front ++ culprit, back ++ message])
      (lines [front ++ violation.culprit, back ++ violation.message]) := fun front back =>
    ((hculprit.append_left front).append_right [0x0A]).append
      (((hmessage.append_left back).append_right [0x0A]).append_right [])
  simp only [plainLines, lines_append, sinkLines]
  exact ((hpair _ _).append_right _).append_right _

private theorem sheds_programLines (findings : ProgramFindings) :
    Sheds (∃ violation ∈ findings.violations, violation.IsExposed)
      (lines (programLines findings.redacted)) (lines (programLines findings)) := by
  rw [programLines, programLines, lines_append, lines_append, lines_append, lines_append]
  refine ((?_ : Sheds _ _ _).append_left _).append_right _
  rw [ProgramFindings.redacted]
  simp only [List.isEmpty_map]
  split
  · next hnone => exact (Sheds.refl _).mono (by simp [List.isEmpty_iff.mp hnone])
  · rw [lines_flatMap, lines_flatMap, List.map_map]
    refine (ShedsEach.map fun violation _ => ?_).sheds
    exact sheds_plainLines (sheds_redact violation.culprit) (sheds_redact violation.message)

/-- **Redacting before the report** makes a difference exactly if there is a credential. -/
theorem plainReport_redactAll_iff (all : List ProgramFindings) :
    plainReport (redactAll all) = plainReport all ↔ ¬IsExposed all := by
  refine Sheds.eq_iff ?_ fun hnone => by rw [redactAll_of_not_isExposed hnone]
  rw [plainReport, plainReport, violationTotal_redactAll, lines_append, lines_append, redactAll,
    List.length_map, List.flatMap_map, lines_flatMap, lines_flatMap]
  exact (ShedsEach.map fun findings _ => sheds_programLines findings).sheds.append_right _

/-! ## The document for programs -/

/-- A member that is there when its text is not empty. -/
theorem sheds_presentIf {lost : Prop} {after before : Text}
    (h : Sheds lost (Json.quoteText after) (Json.quoteText before))
    (hempty : after = [] ↔ before = []) (level : Nat) (name : Text) :
    ShedsEach lost
      ((presentIf (!after.isEmpty) name (.string after)).map (printedMember level))
      ((presentIf (!before.isEmpty) name (.string before)).map (printedMember level)) := by
  by_cases hbefore : before = []
  · rw [hempty.mpr hbefore, hbefore] at h ⊢
    exact (ShedsEach.refl _).mono fun hlost => absurd (h.lt hlost) (Nat.lt_irrefl _)
  · have hafter : after ≠ [] := fun hnone => hbefore (hempty.mp hnone)
    rw [List.isEmpty_eq_false_iff.mpr hbefore, List.isEmpty_eq_false_iff.mpr hafter]
    exact .singleton (h.printedMember_string level name)

private theorem sheds_violationJson {violation : Violation} {culprit message : Text}
    {lost more : Prop}
    (hculprit : Sheds lost (Json.quoteText culprit) (Json.quoteText violation.culprit))
    (hempty : culprit = [] ↔ violation.culprit = [])
    (hmessage : Sheds more (Json.quoteText message) (Json.quoteText violation.message))
    (level : Nat) :
    Sheds (lost ∨ more) (Json.indented level (violationJson { violation with culprit, message }))
      (Json.indented level (violationJson violation)) := by
  have hhead := (ShedsEach.refl [printedMember (level + 1) ("kind", .string violation.kind),
    printedMember (level + 1) ("severity", .string violation.severity.name)]).append
    (.singleton (hmessage.printedMember_string (level + 1) "message"))
  have hshown := hhead.append (sheds_presentIf hculprit hempty (level + 1) "variable")
  apply Sheds.indented_object
  simp only [List.map_append]
  refine (((hshown.append (.refl _)).append (.refl _)).append (.refl _)).mono ?_
  rintro (hlost | hmore)
  · exact .inl (.inl (.inl (.inr hlost)))
  · exact .inl (.inl (.inl (.inl (.inr hmore))))

private theorem sheds_findingJson (level : Nat) (findings : ProgramFindings) :
    Sheds (∃ violation ∈ findings.violations, violation.IsExposed)
      (Json.indented level (findingJson findings.redacted))
      (Json.indented level (findingJson findings)) := by
  apply Sheds.indented_object
  have hitems : Sheds (∃ violation ∈ findings.violations, violation.IsExposed)
      (Json.indented (level + 1)
        (.array (findings.violations.map fun violation => violationJson violation.redacted)))
      (Json.indented (level + 1) (.array (findings.violations.map violationJson))) := by
    apply Sheds.indented_array
    rw [List.map_map, List.map_map]
    refine ShedsEach.map fun violation _ => ?_
    exact sheds_violationJson (sheds_quoteText violation.culprit) redact_eq_nil_iff
      (sheds_quoteText violation.message) (level + 2)
  have hmember := ShedsEach.singleton (hitems.append_left (Json.quoteText "violations" ++ ": "))
  have hmembers := (ShedsEach.refl
    [printedMember (level + 1) ("program", .string findings.program)]).append hmember
  rw [ProgramFindings.redacted, List.map_map]
  exact hmembers.mono .inr

/-- **Redacting before the document** makes a difference exactly if there is a credential. -/
theorem violationDocument_redactAll_iff (all : List ProgramFindings) :
    violationDocument (redactAll all) = violationDocument all ↔ ¬IsExposed all := by
  refine Sheds.eq_iff ?_ fun hnone => by rw [redactAll_of_not_isExposed hnone]
  have hdocument : Sheds (IsExposed all)
      (Json.indented 0 (.array (all.map fun findings => findingJson findings.redacted)))
      (Json.indented 0 (.array (all.map findingJson))) := by
    apply Sheds.indented_array
    rw [List.map_map, List.map_map]
    exact ShedsEach.map fun findings _ => sheds_findingJson 1 findings
  have hlines := (hdocument.append_right [0x0A]).append_right []
  rw [violationDocument, violationDocument, redactAll, List.map_map]
  exact hlines

end Report

/-! ## The command -/

namespace Command

open Report

/-- What the programs of a command line come to. -/
def programsOf (tree : FileTree) (invocation : Invocation) : ProgramRuns :=
  (StateT.run (runPrograms invocation.arguments : StateM FileTree ProgramRuns) tree).1

/-- What the command prints. -/
def taintOutput (surroundings : Surroundings (StateM FileTree)) (settings : Settings)
    (invocation : Invocation) (tree : FileTree) : Text :=
  (StateT.run (runTaint surroundings settings invocation) tree).1.output

theorem taintOutput_eq (surroundings : Surroundings (StateM FileTree)) (settings : Settings)
    (invocation : Invocation) (tree : FileTree) :
    taintOutput surroundings settings invocation tree =
      if (programsOf tree invocation).error?.isSome then []
      else if invocation.options.switch "json" then
        violationDocument (programsOf tree invocation).findings
      else violationReport (programsOf tree invocation).findings := by
  have hprograms :
      StateT.run (runPrograms invocation.arguments : StateM FileTree ProgramRuns) tree =
        (programsOf tree invocation, _) := rfl
  rw [taintOutput, runTaint, FileTree.run_bind_of_run hprograms]
  cases (programsOf tree invocation).error? with
  | some error => rfl
  | none => rfl

/-- **What the command prints of credentials.** When a program cannot be loaded, it prints nothing.
The report shows the findings with their variables and messages redacted, which redacting them once
more before leaves as it is exactly if no credential is left in them. The document shows the
findings as they are, so it is that of the redacted findings exactly if there is no credential in
any variable or message. -/
theorem taint_output_redacted_iff (surroundings : Surroundings (StateM FileTree))
    (settings : Settings) (invocation : Invocation) (tree : FileTree) :
    ((programsOf tree invocation).error?.isSome = true →
      taintOutput surroundings settings invocation tree = []) ∧
    ((programsOf tree invocation).error? = none →
      (invocation.options.switch "json" = false →
        taintOutput surroundings settings invocation tree =
          plainReport (redactAll (programsOf tree invocation).findings) ∧
        (taintOutput surroundings settings invocation tree =
            violationReport (redactAll (programsOf tree invocation).findings) ↔
          ¬IsExposed (redactAll (programsOf tree invocation).findings))) ∧
      (invocation.options.switch "json" = true →
        taintOutput surroundings settings invocation tree =
          violationDocument (programsOf tree invocation).findings ∧
        (taintOutput surroundings settings invocation tree =
            violationDocument (redactAll (programsOf tree invocation).findings) ↔
          ¬IsExposed (programsOf tree invocation).findings))) := by
  rw [taintOutput_eq]
  refine ⟨fun hfailed => if_pos hfailed, fun hloaded => ⟨fun hplain => ?_, fun hjson => ?_⟩⟩
  · simp only [hloaded, hplain, Option.isSome_none, Bool.false_eq_true, if_false]
    refine ⟨violationReport_eq _, ?_⟩
    rw [← plainReport_redactAll_iff, ← violationReport_eq, ← violationReport_eq, eq_comm]
  · simp only [hloaded, hjson, Option.isSome_none, Bool.false_eq_true, if_false, if_true, true_and]
    rw [← violationDocument_redactAll_iff, eq_comm]

/-- A program whose test asserts on its input and a password. -/
def leaky : Taint.Program where
  name := "p"
  statements := [
    { kind := .userInput, target := "x", source := "user" },
    { kind := .assertion, expression := "x pwd=abcdefgh" }]

/-- The document of a program with a password is not that of the redacted findings. -/
theorem leaky_document_not_redacted :
    violationDocument [(ProgramRun.of leaky).findings] ≠
      violationDocument (redactAll [(ProgramRun.of leaky).findings]) := by
  have hexposed : IsExposed [(ProgramRun.of leaky).findings] := by decide +kernel
  intro hsame
  exact (violationDocument_redactAll_iff _).mp hsame.symm hexposed

end Command

end Shortfall

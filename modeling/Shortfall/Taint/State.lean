import Shortfall.Log.Entry
import Shortfall.NameMap
import Shortfall.Taint.Level
import Shortfall.Taint.Provenance

/-!
# Analysis state

What is known about the variables of one test at one point: a level and a provenance for each,
and the advisories raised so far. Writing a variable replaces what was known about it; nothing
is joined in. A variable that was never written reads as untainted, which means "not known to be
tainted" and not "proved safe".
-/

namespace Shortfall.Taint

/-- An assertion that looks at tainted data without expecting it to be rejected. -/
structure Advisory where
  expression : Text
  /-- The variables the expression reads, in ascending order. -/
  variableNames : List Text
  level : Level
  deriving DecidableEq, Repr

structure State where
  levels : NameMap Level := ∅
  provenances : NameMap Provenance := ∅
  advisories : List Advisory := []

namespace State

def empty : State where

instance : Inhabited State := ⟨empty⟩

/-- The level of a variable; untainted when nothing is known. -/
def level (σ : State) (name : Text) : Level := (σ.levels.get? name).getD .untainted

/-- The provenance of a variable; nothing when none is recorded. -/
def provenance (σ : State) (name : Text) : Provenance :=
  (σ.provenances.get? name).getD .none

def tracks (σ : State) (name : Text) : Bool := σ.levels.contains name

/-- The variables with a level, in ascending order. -/
def variableNames (σ : State) : List Text := σ.levels.keys

/-- Writes a variable. A given provenance replaces the old one; without one, a variable that
becomes tainted for the first time gets an empty one. -/
def write (σ : State) (name : Text) (level : Level) (provenance? : Option Provenance) : State :=
  { σ with
    levels := σ.levels.insert name level.clamp
    provenances :=
      match provenance? with
      | some provenance => σ.provenances.insert name provenance
      | none =>
          if !σ.provenances.contains name && level.clamp ≠ .untainted then
            σ.provenances.insert name .none
          else σ.provenances }

def advise (σ : State) (advisory : Advisory) : State :=
  { σ with advisories := σ.advisories ++ [advisory] }

/-- A second state with the same contents, filled entry by entry, to try out a branch on. -/
def copy (σ : State) : State where
  levels := .ofList σ.levels.entries
  provenances := .ofList σ.provenances.entries
  advisories := σ.advisories

/-- The state with everything forgotten, for the next test. -/
def clear (σ : State) : State :=
  { σ with levels := ∅, provenances := ∅, advisories := [] }

end State

end Shortfall.Taint

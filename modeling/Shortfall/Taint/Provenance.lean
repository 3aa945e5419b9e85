import Shortfall.Distinct
import Shortfall.Text.Blank
import Shortfall.Text.Case

/-!
# Provenance of a value

Where the data in a variable came from and which security-sensitive operations it reaches.
Sources and sinks are kept in the order of discovery without repetition; the first source is the
primary one and decides how grave a finding is.
-/

namespace Shortfall.Taint

/-- The kind of place data comes from. Kinds outside the known vocabulary are kept as they are
written. -/
abbrev Source := Text

namespace Source

def userInput : Source := "user-input"

def externalApi : Source := "external-api"

def database : Source := "database"

def fileSystem : Source := "file-system"

def environment : Source := "environment"

def network : Source := "network"

def unknown : Source := "unknown"

/-- The spellings of each known kind, without hyphens, underscores and spaces. -/
def spellings : List (List Text × Source) := [
  (["userinput", "user", "input", "request"], userInput),
  (["externalapi", "api", "external"], externalApi),
  (["database", "db"], database),
  (["filesystem", "file"], fileSystem),
  (["environment", "env"], environment),
  (["network"], network),
  ([""], unknown)]

/-- Reads a kind in any of its spellings; any other text stands for itself. -/
def parse (text : Text) : Source :=
  let key := text.trim.lower.filter fun byte => !(byte = 0x2D || byte = 0x5F || byte = 0x20)
  match spellings.find? fun (keys, _) => keys.contains key with
  | some (_, source) => source
  | none => text

end Source

/-- A security-sensitive operation that a value reaches. -/
structure Sink where
  name : Text
  kind : Text := []
  line : Int := 0
  deriving DecidableEq, Repr

/-- Where a value came from and what it reaches. -/
structure Provenance where
  sources : List Source := []
  sinks : List Sink := []
  deriving DecidableEq, Repr

namespace Provenance

/-- The provenance of a value nothing is known about. -/
def none : Provenance where

instance : Inhabited Provenance := ⟨none⟩

def primarySource (p : Provenance) : Source := p.sources.headD Source.unknown

def reachesSink (p : Provenance) : Bool := !p.sinks.isEmpty

/-- Both provenances in one, what `p` knows first. -/
def merge (p q : Provenance) : Provenance where
  sources := appendNew p.sources q.sources
  sinks := appendNew p.sinks q.sinks

end Provenance

end Shortfall.Taint

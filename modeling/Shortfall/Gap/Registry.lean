import Shortfall.Gap.Strategy
import Shortfall.NameMap

/-!
# The registry of strategies

Strategies are built from a catalog by a builder that is registered under a key. The default
strategy is part of the detector: its key is reserved, and the registry neither takes nor gives it.
-/

namespace Shortfall.Gap

abbrev Builder := Catalog → Strategy

structure Registry where
  builders : NameMap Builder

/-- Why a builder is not registered. -/
inductive RegisterError where
  | incomplete
  | reserved (key : Text)
  | taken (key : Text)
  deriving DecidableEq, Repr

/-- Why a key gives no strategy. -/
inductive ResolveError where
  | reserved (key : Text)
  | unknown (key : Text)
  deriving DecidableEq, Repr

/-- What is said of the reserved key. -/
def reservedMessage : Text := "the default strategy is built into the detector"

def RegisterError.message : RegisterError → Text
  | incomplete => "register strategy: key and constructor are required"
  | reserved key => "register strategy " ++ key.quoted ++ ": " ++ reservedMessage
  | taken key => "register strategy " ++ key.quoted ++ ": already registered"

def ResolveError.message : ResolveError → Text
  | reserved key => "strategy " ++ key.quoted ++ ": " ++ reservedMessage
  | unknown key => "unknown gap strategy: " ++ key.quoted

namespace Registry

/-- The registry of the strategies that come with the library. -/
def standard : Registry where
  builders := .ofList [
    (Strategy.semanticKey, Strategy.semantic),
    (Strategy.riskBasedKey, Strategy.riskBased),
    (Strategy.coverageBasedKey, Strategy.coverageBased)]

/-- The keys in ascending order. -/
def keys (registry : Registry) : List Text := registry.builders.keys

def register (registry : Registry) (key : Text) (builder? : Option Builder) :
    Except RegisterError Registry :=
  match builder? with
  | none => .error .incomplete
  | some builder =>
      if key.isEmpty then .error .incomplete
      else if key = Strategy.defaultKey then .error (.reserved key)
      else if registry.builders.contains key then .error (.taken key)
      else .ok { builders := registry.builders.insert key builder }

/-- The strategy registered under a key. -/
def resolve (registry : Registry) (key : Text) (catalog : Catalog) :
    Except ResolveError Strategy :=
  if key = Strategy.defaultKey then .error (.reserved key)
  else
    match registry.builders.get? key with
    | none => .error (.unknown key)
    | some builder => .ok (builder catalog)

end Registry

end Shortfall.Gap

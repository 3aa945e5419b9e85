import Shortfall.Text.Blank
import Shortfall.Text.Case
import Shortfall.Text.Quoted

/-!
# Taint levels

The three-point chain untainted < possibly tainted < tainted. A level is carried as its rank,
and ranks outside the chain can be written down; every operation first moves such a rank to the
nearest end (`clamp`), so join and meet are total and always yield a point of the chain.
-/

namespace Shortfall.Taint

/-- A taint level, given by its rank. -/
structure Level where
  rank : Int
  deriving DecidableEq, Repr

namespace Level

def untainted : Level := ⟨0⟩

def possiblyTainted : Level := ⟨1⟩

def tainted : Level := ⟨2⟩

instance : Inhabited Level := ⟨untainted⟩

def name (level : Level) : Text :=
  if level = untainted then "untainted"
  else if level = possiblyTainted then "possibly-tainted"
  else if level = tainted then "tainted"
  else "level(" ++ Text.ofInt level.rank ++ ")"

/-- A text that names no level. -/
structure Unknown where
  text : Text
  deriving DecidableEq, Repr

def Unknown.message (e : Unknown) : Text := "unknown taint level " ++ e.text.quoted

/-- Reads a level's name in any case and with white space around it; a blank text means
untainted. -/
def parse (text : Text) : Except Unknown Level :=
  let key := text.trim.lower
  if key = "untainted" || key.isEmpty then .ok untainted
  else if key = "possibly-tainted" || key = "possibly_tainted" || key = "possiblytainted" then
    .ok possiblyTainted
  else if key = "tainted" then .ok tainted
  else .error ⟨text⟩

/-- The point of the chain nearest to a rank. -/
def clamp (level : Level) : Level :=
  if level.rank < untainted.rank then untainted
  else if level.rank > tainted.rank then tainted
  else level

/-- Least upper bound. -/
def join (a b : Level) : Level :=
  if a.clamp.rank > b.clamp.rank then a.clamp else b.clamp

/-- Greatest lower bound. -/
def meet (a b : Level) : Level :=
  if a.clamp.rank < b.clamp.rank then a.clamp else b.clamp

/-- The least upper bound of a list; that of no levels is untainted. -/
def joinAll (levels : List Level) : Level := levels.foldl join untainted

/-- Whether `level` is at or above `bound` in the chain. -/
def atLeast (level bound : Level) : Bool := level.clamp.rank ≥ bound.clamp.rank

end Level

end Shortfall.Taint

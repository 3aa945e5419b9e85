import Shortfall.Text

/-!
# Documents in JSON

A document as it was written: the members of an object stay in order and repeated names are
kept, and a number keeps its spelling. Readers that give the last of several members the say and
readers that apply them one after another can then share one tree.
-/

namespace Shortfall

inductive Json where
  | null
  | bool (b : Bool)
  | number (literal : Text)
  | string (text : Text)
  | array (items : List Json)
  | object (members : List (Text × Json))
  deriving Repr, Inhabited

namespace Json

def int (n : Int) : Json := number (Text.ofInt n)

def texts (items : List Text) : Json := array (items.map string)

/-- The member of a name; the last of several counts. -/
def member? (name : Text) : Json → Option Json
  | object members => members.reverse.lookup name
  | _ => none

end Json

end Shortfall

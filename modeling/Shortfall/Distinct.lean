/-!
# Appending without repetition

Sources, sinks, triggers and recommendations are all lists in which nothing should be said twice
and in which what was there first stays first. `appendNew` adds to such a list.
-/

namespace Shortfall

/-- The elements of `added` that are new, each once, behind those of `known`. -/
def appendNew {α : Type} [DecidableEq α] (known added : List α) : List α :=
  added.foldl (fun seen x => if x ∈ seen then seen else seen ++ [x]) known

end Shortfall

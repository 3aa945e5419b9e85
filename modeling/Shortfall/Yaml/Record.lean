import Shortfall.Yaml.Datum

/-!
# Mappings read as records

A mapping read as a record looks at the entries that the record has fields for. Its merge entry
takes over the entries of other mappings as far as the mapping does not have them itself.
-/

namespace Shortfall.Yaml.Read

/-- What a mapping reader hands on: the record, and the keys that merging must not touch. -/
structure Merging (ρ : Type) where
  value : ρ
  /-- Nothing outside of a merge. -/
  taken? : Option (List ScalarValue) := none

/-- One field of a record. -/
structure Field (ρ : Type) where
  name : Text
  read : Node → ρ → Read ρ

/-- A field that is read with a reader. -/
def Field.of {ρ α : Type} (name : Text) (reader : Reader α) (get : ρ → α) (set : ρ → α → ρ) :
    Field ρ where
  name := name
  read := fun n record => do
    let (value, _) ← reader n (get record)
    return set record value

/-- Reads the entries of a mapping into a record, up to merging. -/
def entries {ρ : Type} (type : Text) (fields : List (Field ρ)) : (done : List Text) →
    List (Node × Node) → Merging ρ → Read (Merging ρ)
  | _, [], m => return m
  | done, (key, value) :: rest, m => do
      if key.isMerge then return ← entries type fields done rest m
      let (name, good) ← text key []
      if !good then return ← entries type fields done rest m
      let (skipped, taken?) := Datum.take m.taken? (.text name)
      let m := { m with taken? }
      if skipped then return ← entries type fields done rest m
      match fields.find? fun field => field.name = name with
      | none => entries type fields done rest m
      | some field =>
          if done.contains name then
            mismatch (.duplicateField key.line name type)
            entries type fields done rest m
          else
            let value ← field.read value m.value
            entries type fields (name :: done) rest { m with value }

mutual

/-- Reads a mapping into a record, with what it merges. -/
def mapping {ρ : Type} (type : Text) (fields : List (Field ρ)) : (fuel : Nat) →
    List (Node × Node) → Merging ρ → Read (Merging ρ × Bool)
  | 0, _, m => return (m, false)
  | fuel + 1, pairs, m => do
      if ← hasDuplicates pairs then return (m, false)
      let m ← entries type fields [] pairs m
      match Datum.mergeEntry? pairs with
      | none => return (m, true)
      | some merged =>
          let taken ← match m.taken? with
            | some taken => pure taken
            | none => Datum.readKeys fuel pairs
          let merging ← mergeAll type fields fuel (Datum.mergedNodes merged)
            { m with taken? := some taken }
          return ({ merging with taken? := m.taken?.bind fun _ => merging.taken? }, true)

/-- Reads the mappings that a merge entry names, one after another. -/
def mergeAll {ρ : Type} (type : Text) (fields : List (Field ρ)) : (fuel : Nat) →
    List Node → Merging ρ → Read (Merging ρ)
  | 0, _, m => return m
  | _ + 1, [], m => return m
  | fuel + 1, n :: rest, m => do
      if !(← Datum.isMapping n) then fail .mergeWithoutMap
      let m ← visit n fun n => do
        match n with
        | .mapping _ _ pairs => return (← mapping type fields fuel pairs m).1
        | _ => return m
      mergeAll type fields fuel rest m

end

/-- A record. -/
def record {ρ : Type} (type : Text) (fields : List (Field ρ)) (fuel : Nat) : Reader ρ :=
  fun n old => visit n fun n => do
    match n with
    | .mapping _ _ pairs =>
        let (m, good) ← mapping type fields fuel pairs { value := old }
        return (m.value, good)
    | .scalar _ tag text =>
        if (← scalarValue tag text) ≠ .null then wrongType n type
        return (old, false)
    | _ =>
        wrongType n type
        return (old, false)

end Shortfall.Yaml.Read

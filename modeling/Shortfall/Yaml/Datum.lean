import Shortfall.Yaml.Reading

/-!
# Values read without a shape in mind

Where nothing says what a node should be, it is read as what it is: a scalar as the value that its
text means, a sequence as a list and a mapping as a table. A table whose keys are all texts stays
one of texts; any other key makes it a general one. No collection can be a key.

A merge entry takes over the entries of other mappings as far as the mapping does not have them
itself, for which its keys have to be compared.
-/

namespace Shortfall.Yaml

inductive Datum where
  | scalar (value : ScalarValue)
  | list (items : List Datum)
  /-- A table, which may have keys that are no texts when it is general. -/
  | table (general : Bool) (entries : List (ScalarValue × Datum))
  deriving Repr, Inhabited

namespace Datum

abbrev Entries := List (ScalarValue × Datum)

/-- Sets an entry of a table, in its old place where it has one. -/
def setEntry (key : ScalarValue) (value : Datum) : Entries → Entries
  | [] => [(key, value)]
  | (other, old) :: rest =>
      if other = key then (key, value) :: rest else (other, old) :: setEntry key value rest

/-! ## Spelling -/

/-- The name of the type of a table. -/
def tableType (general : Bool) : Text :=
  if general then "map[interface \x7b\x7d]interface \x7b\x7d"
  else "map[string]interface \x7b\x7d"

/-- The name of the type of a list. -/
def listType : Text := "[]interface \x7b\x7d"

def monthNames : List Text := [
  "January", "February", "March", "April", "May", "June", "July", "August", "September",
  "October", "November", "December"]

/-- A zone as it would be written in a program. -/
def zoneSpelling : Calendar.Zone → Text
  | .universal => "time.UTC"
  | .shifted offset => if offset = 0 then "time.Local" else "time.Location(\"\")"

/-- A time as it would be written in a program. -/
def momentSpelling (moment : Calendar.Moment) : Text :=
  "time.Date(" ++ Text.joinWith ", " [
    Text.ofNat moment.year, "time." ++ monthNames.getD (moment.month - 1) [],
    Text.ofNat moment.day, Text.ofNat moment.hour, Text.ofNat moment.minute,
    Text.ofNat moment.second, Text.ofNat moment.nanosecond, zoneSpelling moment.zone] ++ ")"

/-- A scalar as it would be written in a program. Integers that need all bits of a word are
written in base sixteen. -/
def scalarSpelling : ScalarValue → Text
  | .null => "interface \x7b\x7d(nil)"
  | .bool b => if b then "true" else "false"
  | .int n => if n < Word.signBound then Text.ofInt n else "0x" ++ Text.ofHex 16 n.toNat
  | .float f => f.scientific
  | .timestamp moment => momentSpelling moment
  | .text text => text.quoted

/-- The place of a scalar's type among the types of keys. -/
def typeRank : ScalarValue → Nat
  | .null => 0
  | .text _ => 1
  | .int n => if n < Word.signBound then 2 else 3
  | .float _ => 4
  | .bool _ => 5
  | .timestamp _ => 6

/-- The order of keys in a spelling: by type, and then by value. -/
def keyAtMost (a b : ScalarValue) : Bool :=
  if typeRank a ≠ typeRank b then typeRank a < typeRank b
  else
    match a, b with
    | .text x, .text y => Text.atMost x y
    | .int x, .int y => x ≤ y
    | .bool x, .bool y => !x || y
    | .float x, .float y => x.atMost y
    | .timestamp x, .timestamp y =>
        x.nanosecond < y.nanosecond || (x.nanosecond = y.nanosecond && x.seconds ≤ y.seconds)
    | _, _ => true

mutual

/-- A value as it would be written in a program, with the entries of tables in order. -/
def spelling : Datum → Text
  | scalar value => scalarSpelling value
  | list items => listType ++ "\x7b" ++ Text.joinWith ", " (spellings items) ++ "\x7d"
  | table general entries =>
      let written := (entrySpellings entries).mergeSort fun a b => keyAtMost a.1 b.1
      tableType general ++ "\x7b" ++ Text.joinWith ", " (written.map (·.2)) ++ "\x7d"

def spellings : List Datum → List Text
  | [] => []
  | item :: rest => item.spelling :: spellings rest

/-- The entries of a table as they would be written, each with its key. -/
def entrySpellings : List (ScalarValue × Datum) → List (ScalarValue × Text)
  | [] => []
  | (key, value) :: rest =>
      (key, scalarSpelling key ++ ":" ++ value.spelling) :: entrySpellings rest

end

/-- The fault of a collection as a key that has to be compared with others. -/
def incomparable : Datum → Fault
  | table general _ => .incomparableKey (tableType general)
  | _ => .incomparableKey listType

/-! ## Reading -/

open Read

/-- Whether a key is a text, or stands for merging. -/
def isTextKey : Node → Read Bool
  | .reference _ _ _ anchor => do
      match (← readThe (List (Nat × Node))).lookup anchor with
      | some n => return n.tag = Tag.str || n.tag = Tag.merge
      | none => return false
  | n => return n.tag = Tag.str || n.tag = Tag.merge

def allTextKeys : List (Node × Node) → Read Bool
  | [] => return true
  | (key, _) :: rest => do
      if ← isTextKey key then allTextKeys rest else return false

/-- Whether a node is a mapping or refers to one. -/
def isMapping (n : Node) : Read Bool := do
  match n with
  | .mapping .. => return true
  | .reference _ _ _ anchor =>
      match (← readThe (List (Nat × Node))).lookup anchor with
      | some (.mapping ..) => return true
      | some _ => return false
      | none => return true
  | _ => return false

/-- The mappings that a merge entry names. Each is checked when its turn comes. -/
def mergedNodes : Node → List Node
  | .sequence _ _ nodes => nodes
  | n => [n]

/-- What the last merge entry of a mapping names. -/
def mergeEntry? (pairs : List (Node × Node)) : Option Node :=
  ((pairs.filter fun (key, _) => key.isMerge).getLast?).map (·.2)

/-- Whether a key was taken already, and the keys that are taken with it. Nothing is taken
outside of a merge. -/
def take (taken? : Option (List ScalarValue)) (key : ScalarValue) :
    Bool × Option (List ScalarValue) :=
  match taken? with
  | none => (false, none)
  | some taken => if taken.contains key then (true, some taken) else (false, some (key :: taken))

mutual

/-- Reads any value. A mapping with a repeated key gives none. -/
def read : (fuel : Nat) → Node → Read (Option Datum)
  | 0, _ => return none
  | fuel + 1, n =>
      visit n fun n => do
        match n with
        | .scalar _ tag text => return some (.scalar (← scalarValue tag text))
        | .sequence _ _ nodes => return some (.list (← readItems fuel nodes))
        | .mapping _ _ pairs =>
            let texts ← allTextKeys pairs
            let (entries, _, good) ← readTable fuel texts pairs [] none
            return if good then some (.table (!texts) entries) else none
        | .reference .. => return none

/-- Reads the items of a sequence; those that give no value are left out. -/
def readItems : (fuel : Nat) → List Node → Read (List Datum)
  | 0, _ => return []
  | _ + 1, [] => return []
  | fuel + 1, n :: rest => do
      let item? ← read fuel n
      return item?.toList ++ (← readItems fuel rest)

/-- Reads a mapping into a table, with what it merges. `texts` says whether keys are texts, and
the last part of the answer whether the mapping could be read. -/
def readTable : (fuel : Nat) → (texts : Bool) → List (Node × Node) → Entries →
    Option (List ScalarValue) → Read (Entries × Option (List ScalarValue) × Bool)
  | 0, _, _, entries, taken? => return (entries, taken?, false)
  | fuel + 1, texts, pairs, entries, taken? => do
      if ← hasDuplicates pairs then return (entries, taken?, false)
      let (entries, taken?) ← readEntries fuel texts pairs entries taken?
      match mergeEntry? pairs with
      | none => return (entries, taken?, true)
      | some merged =>
          let taken ← match taken? with
            | some taken => pure taken
            | none => readKeys fuel pairs
          let (entries, after) ← mergeTables fuel texts (mergedNodes merged) entries taken
          return (entries, taken?.map fun _ => after, true)

/-- Adds the entries of a mapping to a table, up to merging. -/
def readEntries : (fuel : Nat) → (texts : Bool) → List (Node × Node) → Entries →
    Option (List ScalarValue) → Read (Entries × Option (List ScalarValue))
  | 0, _, _, entries, taken? => return (entries, taken?)
  | _ + 1, _, [], entries, taken? => return (entries, taken?)
  | fuel + 1, texts, (key, content) :: rest, entries, taken? => do
      if key.isMerge then return ← readEntries fuel texts rest entries taken?
      match ← readKey fuel texts taken?.isSome key with
      | none => readEntries fuel texts rest entries taken?
      | some key =>
          let (skipped, taken?) := take taken? key
          if skipped then return ← readEntries fuel texts rest entries taken?
          match ← read fuel content with
          | some value => readEntries fuel texts rest (setEntry key value entries) taken?
          | none => readEntries fuel texts rest entries taken?

/-- Reads a key. A collection is a key of no table, and cannot be `compared` either. -/
def readKey : (fuel : Nat) → (texts compared : Bool) → Node → Read (Option ScalarValue)
  | 0, _, _, _ => return none
  | fuel + 1, texts, compared, key => do
      if texts then
        let (name, good) ← text key []
        return if good then some (.text name) else none
      match ← read fuel key with
      | some (.scalar value) => return some value
      | some collection =>
          fail (if compared then collection.incomparable else .badKey collection.spelling)
      | none => return none

/-- The keys of a mapping, as merging compares them. -/
def readKeys : (fuel : Nat) → List (Node × Node) → Read (List ScalarValue)
  | 0, _ => return []
  | _ + 1, [] => return []
  | fuel + 1, (key, _) :: rest => do
      match ← read fuel key with
      | some (.scalar value) => return value :: (← readKeys fuel rest)
      | some collection => fail collection.incomparable
      | none => readKeys fuel rest

/-- Reads the mappings that a merge entry names into a table, one after another. -/
def mergeTables : (fuel : Nat) → (texts : Bool) → List Node → Entries → List ScalarValue →
    Read (Entries × List ScalarValue)
  | 0, _, _, entries, taken => return (entries, taken)
  | _ + 1, _, [], entries, taken => return (entries, taken)
  | fuel + 1, texts, n :: rest, entries, taken => do
      if !(← isMapping n) then fail .mergeWithoutMap
      let (entries, taken) ← visit n fun n => do
        match n with
        | .mapping _ _ pairs =>
            let (entries, taken?, _) ← readTable fuel texts pairs entries (some taken)
            return (entries, taken?.getD taken)
        | _ => return (entries, taken)
      mergeTables fuel texts rest entries taken

end

/-- Reads a table of texts; an empty value leaves it as it was. -/
def tableReader (fuel : Nat) : Reader Entries := fun n old =>
  visit n fun n => do
    match n with
    | .mapping _ _ pairs =>
        let (entries, _, good) ← readTable fuel true pairs old none
        return (entries, good)
    | .scalar _ tag text =>
        if (← scalarValue tag text) ≠ .null then wrongType n (tableType false)
        return (old, false)
    | _ =>
        wrongType n (tableType false)
        return (old, false)

end Datum

end Shortfall.Yaml

import Shortfall.Text

/-!
# Maps from names

A finite map keyed by texts, kept as its entries in strictly ascending bytewise order of the
keys. Listing a map is then reading its entries, and two maps with the same entries are the same
map, whatever order they were filled in.

`insertName` is the corresponding operation on plain ascending lists of names.

## Main results

* `get?_insert_self`, `get?_insert_ne` — insertion is a functional update.
* `mem_insertName` — inserting a name adds that name and nothing else.
-/

namespace Shortfall

/-- Keys in strictly ascending order. -/
def KeysAscend {α : Type} (entries : List (Text × α)) : Prop :=
  entries.Pairwise fun a b => a.1 < b.1

/-- Places a value under a key in entries that ascend, replacing what stood there. -/
def insertEntry {α : Type} (key : Text) (value : α) : List (Text × α) → List (Text × α)
  | [] => [(key, value)]
  | (k, v) :: rest =>
      if key < k then (key, value) :: (k, v) :: rest
      else if key = k then (key, value) :: rest
      else (k, v) :: insertEntry key value rest

theorem mem_insertEntry {α : Type} {key : Text} {value : α} {entries : List (Text × α)}
    {e : Text × α} (h : e ∈ insertEntry key value entries) : e = (key, value) ∨ e ∈ entries := by
  induction entries with
  | nil => simpa [insertEntry] using h
  | cons head rest ih =>
      simp only [insertEntry] at h
      split at h
      · simpa using h
      · split at h
        · grind
        · rcases List.mem_cons.mp h with rfl | h
          · simp
          · rcases ih h with h | h <;> simp [h]

theorem keysAscend_insertEntry {α : Type} (key : Text) (value : α) {entries : List (Text × α)}
    (h : KeysAscend entries) : KeysAscend (insertEntry key value entries) := by
  induction entries with
  | nil => simp [KeysAscend, insertEntry]
  | cons head rest ih =>
      obtain ⟨hhead, hrest⟩ := List.pairwise_cons.mp h
      simp only [insertEntry]
      split
      · next hlt =>
          refine List.pairwise_cons.mpr ⟨fun e he => ?_, h⟩
          rcases List.mem_cons.mp he with rfl | he
          · exact hlt
          · exact List.lt_trans hlt (hhead e he)
      · split
        · next heq => subst heq; exact List.pairwise_cons.mpr ⟨hhead, hrest⟩
        · next hnlt hne =>
            refine List.pairwise_cons.mpr ⟨fun e he => ?_, ih hrest⟩
            rcases mem_insertEntry he with rfl | he
            · grind
            · exact hhead e he

/-- The value under a key. -/
def lookupEntry {α : Type} (key : Text) : List (Text × α) → Option α
  | [] => none
  | (k, v) :: rest => if key = k then some v else lookupEntry key rest

structure NameMap (α : Type) where
  entries : List (Text × α)
  ascend : KeysAscend entries := by simp [KeysAscend]

namespace NameMap

variable {α : Type}

def empty : NameMap α where
  entries := []

instance : EmptyCollection (NameMap α) := ⟨empty⟩

instance : Inhabited (NameMap α) := ⟨empty⟩

def get? (map : NameMap α) (key : Text) : Option α := lookupEntry key map.entries

def contains (map : NameMap α) (key : Text) : Bool := (map.get? key).isSome

def insert (map : NameMap α) (key : Text) (value : α) : NameMap α where
  entries := insertEntry key value map.entries
  ascend := keysAscend_insertEntry key value map.ascend

/-- The keys, in ascending order. -/
def keys (map : NameMap α) : List Text := map.entries.map (·.1)

def ofList (entries : List (Text × α)) : NameMap α :=
  entries.foldl (fun map (key, value) => map.insert key value) ∅

@[simp] theorem lookupEntry_insertEntry_self (key : Text) (value : α)
    (entries : List (Text × α)) :
    lookupEntry key (insertEntry key value entries) = some value := by
  induction entries with
  | nil => simp [insertEntry, lookupEntry]
  | cons head rest ih => grind [insertEntry, lookupEntry]

theorem lookupEntry_insertEntry_ne {key other : Text} (h : other ≠ key) (value : α)
    (entries : List (Text × α)) :
    lookupEntry other (insertEntry key value entries) = lookupEntry other entries := by
  induction entries with
  | nil => simp [insertEntry, lookupEntry, h]
  | cons head rest ih => grind [insertEntry, lookupEntry]

@[simp] theorem get?_insert_self (map : NameMap α) (key : Text) (value : α) :
    (map.insert key value).get? key = some value :=
  lookupEntry_insertEntry_self key value map.entries

theorem get?_insert_ne (map : NameMap α) {key other : Text} (h : other ≠ key) (value : α) :
    (map.insert key value).get? other = map.get? other :=
  lookupEntry_insertEntry_ne h value map.entries

end NameMap

/-! ## Ascending lists of names -/

/-- Adds a name to an ascending list of names, once. -/
def insertName (name : Text) : List Text → List Text
  | [] => [name]
  | head :: rest =>
      if name < head then name :: head :: rest
      else if name = head then head :: rest
      else head :: insertName name rest

@[simp] theorem mem_insertName {name other : Text} {names : List Text} :
    other ∈ insertName name names ↔ other = name ∨ other ∈ names := by
  induction names with
  | nil => simp [insertName]
  | cons head rest ih =>
      simp only [insertName]
      split
      · simp
      · split
        · next heq => subst heq; simp
        · simp [ih]; grind

/-- The names of both lists, ascending when `names` ascends. -/
def insertNames (added names : List Text) : List Text := added.foldr insertName names

/-- The names of a list in ascending order, each once. -/
def ascending (names : List Text) : List Text := insertNames names []

end Shortfall

import Shortfall.Json.Passing
import Shortfall.Text.Case

/-!
# Decoding documents into records

A decoder reads a value at the front of a text *over* what is there already, so that repeated
members of an object are applied one after another to the same record. What a member does not
mention stays as it was: nothing in place of a number or a record leaves it alone, and the items
of a second list are read over those of the first.

Member names are compared without regard to case, and members without a field are passed over.
-/

namespace Shortfall.Json

/-- Reads a value over an old one, and returns what stands behind it. `room` is how much deeper
values may be nested. -/
abbrev Decoder (α : Type) := (room : Nat) → α → Text → Option (α × Text)

namespace Decoder

/-- A text; nothing reads as the empty text. -/
def text : Decoder Text := fun _ _ => textOrNull?

/-- A text that stands for a value. -/
def word {α : Type} (parse? : Text → Option α) : Decoder α := fun _ _ input => do
  let (word, rest) ← textOrNull? input
  let value ← parse? word
  some (value, rest)

/-! ## Whole numbers -/

/-- The largest number to which a digit can be added within 64 bits, whichever digit it is. -/
def safeMagnitude : Nat := Word.count / 10 - 1

/-- A magnitude with one digit more. It is kept to 64 bits, and lost only when that makes it
smaller. -/
def addDigit? (magnitude : Nat) (digit : UInt8) : Option Nat :=
  let next := magnitude * 10 + (digit - 0x30).toNat
  if magnitude ≤ safeMagnitude then some next
  else if next % Word.count < magnitude then none
  else some (next % Word.count)

def addDigits? (magnitude : Nat) (digits : Text) : Option Nat := digits.foldlM addDigit? magnitude

/-- The digits of a whole number, read as a magnitude. Behind a zero no digit is taken, and a point
may not follow. -/
def magnitude? (text : Text) : Option (Nat × Text) := do
  let (digits, rest) ←
    match text with
    | 0x30 :: rest => some (([0x30], rest) : Text × Text)
    | _ => digits? text
  if rest.head? = some 0x2E then none
  else some (← addDigits? 0 digits, rest)

/-- A whole number of 64 bits; nothing leaves the old one. -/
def int : Decoder Int := fun _ old text =>
  match skipSpace text with
  | 0x6E :: rest => (keyword? "null" (0x6E :: rest)).map (old, ·)
  | 0x2D :: rest => do
      let (magnitude, rest) ← magnitude? rest
      if magnitude ≤ Word.signBound then some (-(magnitude : Int), rest) else none
  | rest => do
      let (magnitude, rest) ← magnitude? rest
      if magnitude < Word.signBound then some (magnitude, rest) else none

/-! ## Lists -/

/-- A list that remembers the items it once held behind its end. -/
structure Cells (α : Type) where
  items : List α := []
  beyond : List α := []

/-- Reads the items of a list that has some over cells, with the closing bracket; an item behind
the last cell is read over a blank one. -/
def overCells {α : Type} (blank : α) (item : Decoder α) (room : Nat) :
    (fuel : Nat) → (cells : List α) → Text → Option (Cells α × Text)
  | 0, _, _ => none
  | fuel + 1, cells, text => do
      let (read, rest) ← item room (cells.headD blank) text
      match skipSpace rest with
      | 0x2C :: rest => do
          let (more, rest) ← overCells blank item room fuel cells.tail rest
          some ({ more with items := read :: more.items }, rest)
      | 0x5D :: rest => some ({ items := [read], beyond := cells.tail }, rest)
      | _ => none

/-- A list. Nothing takes the list away, an empty list starts afresh, and other lists are read over
the old one. -/
def list {α : Type} (blank : α) (item : Decoder α) : Decoder (Option (Cells α)) :=
  fun room old text =>
    match skipSpace text with
    | 0x5B :: rest =>
        match skipSpace rest with
        | 0x5D :: rest => some (some {}, rest)
        | _ =>
            let cells := (old.map fun cells => cells.items ++ cells.beyond).getD []
            (overCells blank item room rest.length cells rest).map fun (cells, rest) =>
              (some cells, rest)
    | rest => (keyword? "null" rest).map (none, ·)

def texts : Decoder (Option (Cells Text)) := list [] text

/-- The items of a list, if there is one. -/
def items? {α : Type} (cells? : Option (Cells α)) : Option (List α) := cells?.map (·.items)

def itemsOf {α : Type} (cells? : Option (Cells α)) : List α := (items? cells?).getD []

/-! ## Records -/

structure Field (α : Type) where
  name : Text
  decode : Decoder α

/-- A field that is read into a part of a record. -/
def Field.of {α β : Type} (name : Text) (decoder : Decoder β) (part : α → β)
    (replace : α → β → α) : Field α where
  name := name
  decode room record text :=
    (decoder room (part record) text).map fun (value, rest) => (replace record value, rest)

/-- How the names of members are read and compared. -/
structure Naming where
  read : Text → Option (Text × Text)
  /-- Takes the case out of a name. -/
  fold : Text → Text

/-- Names in any case; a name that is missing is the empty one. -/
def Naming.general : Naming where
  read := textOrNull?
  fold := Text.lower

/-- Names that have the Latin letters in any case. Control characters may stand in them. -/
def Naming.plain : Naming where
  read text :=
    match skipSpace text with
    | 0x22 :: rest => lenientText? true rest
    | _ => none
  fold := Text.lowerAscii

/-- Applies the members of an object that has some in order, up to the closing brace. -/
def members {α : Type} (naming : Naming) (fields : List (Field α)) (room : Nat) :
    (fuel : Nat) → α → Text → Option (α × Text)
  | 0, _, _ => none
  | fuel + 1, record, text => do
      let (name, rest) ← naming.read text
      match skipSpace rest with
      | 0x3A :: rest => do
          let (record, rest) ←
            match fields.find? fun field => field.name.lower = naming.fold name with
            | some field => field.decode room record rest
            | none => (pass? (2 * rest.length + 2) room rest).map (record, ·)
          match skipSpace rest with
          | 0x2C :: rest => members naming fields room fuel record rest
          | 0x7D :: rest => some (record, rest)
          | _ => none
      | _ => none

/-- A record; nothing leaves the old one. -/
def recordWith {α : Type} (naming : Naming) (fields : List (Field α)) : Decoder α :=
  fun room old text =>
    match skipSpace text with
    | 0x7B :: rest =>
        match skipSpace rest with
        | 0x7D :: rest => some (old, rest)
        | _ =>
            match room with
            | 0 => none
            | room + 1 => members naming fields room rest.length old rest
    | rest => (keyword? "null" rest).map (old, ·)

def record {α : Type} (fields : List (Field α)) : Decoder α := recordWith .general fields

def plainRecord {α : Type} (fields : List (Field α)) : Decoder α := recordWith .plain fields

/-- A record that may be missing; nothing takes it away. -/
def optional {α : Type} (blank : α) (decoder : Decoder α) : Decoder (Option α) :=
  fun room old text =>
    match skipSpace text with
    | 0x6E :: rest => (keyword? "null" (0x6E :: rest)).map (none, ·)
    | _ => (decoder room (old.getD blank) text).map fun (value, rest) => (some value, rest)

/-! ## Whole texts -/

/-- Whether a text may stand behind a value: white space, up to the end or to a null byte. -/
def endsText (text : Text) : Bool :=
  match skipSpace text with
  | [] => true
  | byte :: _ => byte = 0

/-- Decodes a text over a blank record. -/
def run? {α : Type} (decoder : Decoder α) (blank : α) (text : Text) : Option α :=
  match decoder maxDepth blank text with
  | none => none
  | some (value, rest) => if endsText rest then some value else none

end Decoder

end Shortfall.Json

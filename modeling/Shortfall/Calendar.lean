import Shortfall.Text

/-!
# Dates and times

Times are read after a layout, a list of fields and of signs between them, and shown in
coordinated universal time. Numbers in a layout take two digits, or one where a layout is lenient
about it. Seconds may have a fraction in every layout, of which nine digits count.

Days are counted in the proleptic Gregorian calendar.
-/

namespace Shortfall.Calendar

/-- A field of a layout. -/
inductive Field where
  | year
  | month (twoDigits : Bool)
  | day (twoDigits : Bool)
  | hour
  | minute (twoDigits : Bool)
  | second (twoDigits : Bool)
  /-- `Z`, or a signed offset of hours and minutes. -/
  | zone
  /-- A sign that stands for itself. -/
  | sign (byte : UInt8)
  /-- Any number of spaces, of which the first may be missing only at the end. -/
  | spaces
  deriving DecidableEq, Repr

/-- How much of a point in time is written. -/
inductive Scope where
  /-- A date, a time of day and a zone. -/
  | instant
  | date
  | time
  | dateTime
  deriving DecidableEq, Repr

/-- Where a time was taken. -/
inductive Zone where
  | universal
  /-- At a distance from universal time, in seconds. -/
  | shifted (offset : Int)
  deriving DecidableEq, Repr

def Zone.offset : Zone → Int
  | universal => 0
  | shifted offset => offset

/-- A time as it was written. -/
structure Moment where
  year : Nat := 0
  month : Nat := 1
  day : Nat := 1
  hour : Nat := 0
  minute : Nat := 0
  second : Nat := 0
  nanosecond : Nat := 0
  zone : Zone := .universal
  deriving DecidableEq, Repr

/-- Splits a number of one or two digits off. -/
def number? (twoDigits : Bool) : Text → Option (Nat × Text)
  | a :: b :: rest =>
      if !Text.isDigit a then none
      else if Text.isDigit b then some ((a.toNat - 0x30) * 10 + (b.toNat - 0x30), rest)
      else if twoDigits then none
      else some (a.toNat - 0x30, b :: rest)
  | [a] => if Text.isDigit a && !twoDigits then some (a.toNat - 0x30, []) else none
  | [] => none

/-- Splits a number within bounds off. -/
def bounded? (least most : Nat) (twoDigits : Bool) (text : Text) : Option (Nat × Text) :=
  match number? twoDigits text with
  | some (n, rest) => if least ≤ n && n ≤ most then some (n, rest) else none
  | none => none

/-- The nanoseconds that the digits of a fraction count. -/
def nanoseconds (digits : Text) : Nat :=
  (Text.digitsValue? ((digits ++ List.replicate 9 0x30).take 9)).getD 0

/-- Splits a fraction of a second off, which starts with a point or a comma. Without one there
are no nanoseconds. -/
def fraction : Text → Nat × Text
  | mark :: digit :: rest =>
      if (mark = 0x2E || mark = 0x2C) && Text.isDigit digit then
        (nanoseconds (digit :: rest.takeWhile Text.isDigit), rest.dropWhile Text.isDigit)
      else (0, mark :: digit :: rest)
  | text => (0, text)

def zone? : Text → Option (Zone × Text)
  | 0x5A :: rest => some (.universal, rest)
  | sign :: a :: b :: colon :: c :: d :: rest =>
      match bounded? 0 24 true [a, b], bounded? 0 60 true [c, d] with
      | some (hours, _), some (minutes, _) =>
          let offset : Int := (hours * 60 + minutes) * 60
          if colon ≠ 0x3A then none
          else if sign = 0x2B then some (.shifted offset, rest)
          else if sign = 0x2D then some (.shifted (-offset), rest)
          else none
      | _, _ => none
  | _ => none

def year? (text : Text) : Option (Nat × Text) :=
  match Text.digitsValue? (text.take 4) with
  | some year => if (text.take 4).length = 4 then some (year, text.drop 4) else none
  | none => none

def Field.read? (field : Field) (moment : Moment) (text : Text) : Option (Moment × Text) :=
  match field with
  | year => (year? text).map fun (n, rest) => ({ moment with year := n }, rest)
  | month two => (bounded? 1 12 two text).map fun (n, rest) => ({ moment with month := n }, rest)
  | day two => (bounded? 0 99 two text).map fun (n, rest) => ({ moment with day := n }, rest)
  | hour => (bounded? 0 23 false text).map fun (n, rest) => ({ moment with hour := n }, rest)
  | minute two => (bounded? 0 59 two text).map fun (n, rest) => ({ moment with minute := n }, rest)
  | second two =>
      (bounded? 0 59 two text).map fun (n, rest) =>
        let (nanosecond, rest) := fraction rest
        ({ moment with second := n, nanosecond }, rest)
  | zone => (zone? text).map fun (place, rest) => ({ moment with zone := place }, rest)
  | sign byte =>
      match text with
      | first :: rest => if first = byte then some (moment, rest) else none
      | [] => none
  | spaces =>
      match text with
      | [] => some (moment, [])
      | first :: _ => if first = 0x20 then some (moment, text.dropWhile (· = 0x20)) else none

def isLeap (year : Int) : Bool :=
  year % 4 = 0 && (year % 100 ≠ 0 || year % 400 = 0)

def daysIn (year : Int) (month : Nat) : Nat :=
  if month = 2 then (if isLeap year then 29 else 28)
  else if month = 4 || month = 6 || month = 9 || month = 11 then 30
  else 31

def readFields? : List Field → Moment → Text → Option Moment
  | [], moment, text =>
      if text.isEmpty && 1 ≤ moment.day && moment.day ≤ daysIn moment.year moment.month then
        some moment
      else none
  | field :: fields, moment, text =>
      match field.read? moment text with
      | some (moment, rest) => readFields? fields moment rest
      | none => none

/-- Reads a whole text after a layout. -/
def parse? (layout : List Field) (text : Text) : Option Moment := readFields? layout {} text

/-- The layout of time stamps on the internet: two digits everywhere but in the hour. -/
def internet : List Field := [
  .year, .sign 0x2D, .month true, .sign 0x2D, .day true, .sign 0x54,
  .hour, .sign 0x3A, .minute true, .sign 0x3A, .second true, .zone]

/-- The layout of times in names of files. -/
def inFileNames : List Field := [
  .year, .sign 0x2D, .month true, .sign 0x2D, .day true, .sign 0x54,
  .hour, .sign 0x2D, .minute true, .sign 0x2D, .second true]

/-- Reads a time in the name of a file, which has milliseconds. -/
def parseFileTime? (text : Text) : Option Moment :=
  let mark := text[text.length - 4]?
  if mark = some 0x2E || mark = some 0x2C then parse? inFileNames text else none

/-! ## Days and seconds -/

/-- Days since the first of March of the year zero. -/
def daysFromCivil (year : Int) (month day : Nat) : Int :=
  let y : Int := if month ≤ 2 then year - 1 else year
  let m : Int := (month + 9) % 12
  y * 365 + y / 4 - y / 100 + y / 400 + (153 * m + 2) / 5 + day - 1

/-- Seconds since the first of March of the year zero, in universal time. -/
def Moment.seconds (moment : Moment) : Int :=
  ((daysFromCivil moment.year moment.month moment.day * 24 + moment.hour) * 60 + moment.minute) * 60
    + moment.second - moment.zone.offset

/-- Nanoseconds since the first of March of the year zero, in universal time. -/
def Moment.nanoseconds (moment : Moment) : Int :=
  moment.seconds * 1000000000 + moment.nanosecond

/-- The year, month and day of a day count. -/
def civilFromDays (days : Int) : Int × Nat × Nat :=
  let era := days / 146097
  let dayOfEra := days % 146097
  let yearOfEra := (dayOfEra - dayOfEra / 1460 + dayOfEra / 36524 - dayOfEra / 146096) / 365
  let dayOfYear := dayOfEra - (365 * yearOfEra + yearOfEra / 4 - yearOfEra / 100)
  let m := (5 * dayOfYear + 2) / 153
  let day := dayOfYear - (153 * m + 2) / 5 + 1
  let month := if m < 10 then m + 3 else m - 9
  let year := yearOfEra + era * 400 + (if month ≤ 2 then 1 else 0)
  (year, month.toNat, day.toNat)

def yearText : Int → Text
  | .ofNat n => Text.ofNatPadded 4 n
  | .negSucc n => 0x2D :: Text.ofNatPadded 4 (n + 1)

/-- The date of a count of seconds. -/
def dateText (seconds : Int) : Text :=
  let (year, month, day) := civilFromDays (seconds / 86400)
  yearText year ++ "-" ++ Text.ofNatPadded 2 month ++ "-" ++ Text.ofNatPadded 2 day

/-- The time of day of a count of seconds. -/
def timeText (seconds : Int) : Text :=
  let rest := (seconds % 86400).toNat
  Text.ofNatPadded 2 (rest / 3600) ++ ":" ++ Text.ofNatPadded 2 (rest / 60 % 60) ++ ":"
    ++ Text.ofNatPadded 2 (rest % 60)

/-- The date and the time of day in universal time. -/
def Moment.text (moment : Moment) : Text :=
  dateText moment.seconds ++ " " ++ timeText moment.seconds

/-- A time stamp in universal time; a text that is no time stamp is left as it is. -/
def display (text : Text) : Text :=
  match parse? internet text with
  | some moment => moment.text
  | none => text

/-- The count of seconds at the start of the year 1970. -/
def start1970 : Int := daysFromCivil 1970 1 1 * 86400

/-- The time stamp of a number of seconds since the start of 1970; a fraction may be given. -/
def stamp (seconds : Int) (fraction : Text := []) : Text :=
  let count := start1970 + seconds
  dateText count ++ "T" ++ timeText count ++ fraction ++ "Z"

/-- The time for the name of a file, of a number of milliseconds since the start of 1970. -/
def fileTime (milliseconds : Int) : Text :=
  let count := start1970 + milliseconds / 1000
  dateText count ++ "T" ++ (timeText count).replaceByte 0x3A 0x2D ++ "."
    ++ Text.ofNatPadded 3 (milliseconds % 1000).toNat

end Shortfall.Calendar

import Shortfall.Calendar
import Shortfall.Toml.Fault

/-!
# Dates and times in TOML

A point in time is a date, a time of day, both, or both with a distance from universal time. Only
its form and its bounds matter here; the value itself is not kept.
-/

namespace Shortfall.Toml

/-- The number that digits denote. -/
def digitsNumber (digits : Text) : Except Fault Nat :=
  match Text.digitsValue? digits with
  | some n => .ok n
  | none => .error .badDigit

/-- Checks a date of ten characters. -/
def checkDate (text : Text) : Except Fault Unit := do
  if text.length ≠ 10 || text[4]? ≠ some 0x2D || text[7]? ≠ some 0x2D then throw .badDateForm
  let year ← digitsNumber (text.take 4)
  let month ← digitsNumber ((text.drop 5).take 2)
  let day ← digitsNumber (text.drop 8)
  if month = 0 || month > 12 || day = 0 || day > Calendar.daysIn year month then
    throw .impossibleDate

/-- What follows the fraction of a second, if there is one. -/
def restBehindFraction : Text → Except Fault Text
  | [0x2E] => .error .noFraction
  | 0x2E :: digit :: rest =>
      if Text.isDigit digit then .ok (rest.dropWhile Text.isDigit) else .error .emptyFraction
  | text => .ok text

/-- Checks the time of day at the front of a text, and gives what follows it. -/
def checkTime (text : Text) : Except Fault Text := do
  if text.length < 8 then throw .badTimeForm
  if (← digitsNumber (text.take 2)) > 23 then throw .hourTooLarge
  if text[2]? ≠ some 0x3A then throw .noColonBehindHours
  if (← digitsNumber ((text.drop 3).take 2)) > 59 then throw .minutesTooLarge
  if text[5]? ≠ some 0x3A then throw .noColonBehindMinutes
  if (← digitsNumber ((text.drop 6).take 2)) > 59 then throw .secondsTooLarge
  restBehindFraction (text.drop 8)

/-- Checks the date and the time of day at the front of a text, and gives what follows them. -/
def checkDateTime (text : Text) : Except Fault Text := do
  if text.length < 11 then throw .badDateTimeForm
  checkDate (text.take 10)
  match text[10]? with
  | some separator =>
      if separator = 0x54 || separator = 0x74 || separator = 0x20 then checkTime (text.drop 11)
      else throw .badSeparator
  | none => throw .badSeparator

/-- Checks a distance from universal time. -/
def checkZone (text : Text) : Except Fault Unit := do
  match text with
  | 0x5A :: rest | 0x7A :: rest => if !rest.isEmpty then throw .restBehindZone
  | _ =>
      if text.length ≠ 6 then throw .badZone
      if text.head? ≠ some 0x2B && text.head? ≠ some 0x2D then throw .badZoneSign
      if text[3]? ≠ some 0x3A then throw .noColonInZone
      if (← digitsNumber ((text.drop 1).take 2)) > 23 then throw .zoneHoursTooLarge
      if (← digitsNumber (text.drop 4)) > 59 then throw .zoneMinutesTooLarge

/-- Checks a point in time of which a part is written. -/
def checkMoment (scope : Calendar.Scope) (text : Text) : Except Fault Unit := do
  match scope with
  | .date => checkDate text
  | .time => if !(← checkTime text).isEmpty then throw .restBehindTime
  | .dateTime => if !(← checkDateTime text).isEmpty then throw .restBehindDateTime
  | .instant => checkZone (← checkDateTime text)

/-! ## Extent -/

/-- How far a point in time reaches, and what was seen on the way. -/
structure Extent where
  hasDate : Bool := false
  hasTime : Bool := false
  hasZone : Bool := false
  seenSpace : Bool := false

def Extent.scope (extent : Extent) : Calendar.Scope :=
  if extent.hasTime then
    if extent.hasDate then if extent.hasZone then .instant else .dateTime else .time
  else .date

/-- Cuts off the characters that may be part of a point in time. One space is among them where a
digit follows; it and the next two characters are taken together, as far as they are there.
`taken` counts the characters already taken. -/
def cutMoment (taken : Nat) (extent : Extent) : Text → Text × Extent × Text
  | [] => ([], extent, [])
  | byte :: rest =>
      let go := fun (extent : Extent) =>
        let (front, extent, back) := cutMoment (taken + 1) extent rest
        (byte :: front, extent, back)
      if Text.isDigit byte then go extent
      else if byte = 0x2D then
        go { extent with hasDate := true, hasZone := extent.hasZone || taken ≥ 8 }
      else if byte = 0x54 || byte = 0x74 || byte = 0x3A || byte = 0x2E then
        go { extent with hasTime := true }
      else if byte = 0x2B || byte = 0x5A || byte = 0x7A then go { extent with hasZone := true }
      else if byte = 0x20 && !extent.seenSpace then
        match rest with
        | [digit] =>
            if Text.isDigit digit then
              ([byte, digit], { extent with seenSpace := true, hasTime := true }, [])
            else ([], extent, byte :: rest)
        | digit :: third :: rest' =>
            if Text.isDigit digit then
              let (front, extent, back) :=
                cutMoment (taken + 3) { extent with seenSpace := true, hasTime := true } rest'
              (byte :: digit :: third :: front, extent, back)
            else ([], extent, byte :: rest)
        | [] => ([], extent, byte :: rest)
      else ([], extent, byte :: rest)

end Shortfall.Toml

import ZenovOS.Lib.Blocks

/-! # Dates

`productivity_is_leap` and `productivity_days_in_month` of `ui_productivity.inc`, and the day numbers and minute stamps of
`ui_productivity_calendar_clock_v2_common.inc` and `ui_productivity_utilities_common.inc`. The dates are those from 2000 to 2099, and
their numbers are far below what the types of the source hold. -/

namespace ZenovOS.Productivity
open Blocks

structure Date where
  year : Nat
  month : Nat
  day : Nat
deriving DecidableEq

structure DateTime extends Date where
  hour : Nat
  minute : Nat
deriving DecidableEq

def isLeap (year : Nat) : Bool := (year % 4 = 0 && year % 100 ≠ 0) || year % 400 = 0

def daysInMonth (year month : Nat) : Nat :=
  if month < 1 ∨ month > 12 then 30
  else if month = 2 ∧ isLeap year then 29
  else [31, 28, 31, 30, 31, 30, 31, 31, 30, 31, 30, 31].getD (month - 1) 0

/-- A day of a month, and the last one of a month that is too short. -/
def clampDay (day year month : Nat) : Nat := if day > daysInMonth year month then daysInMonth year month else day

def daysInYear (year : Nat) : Nat := if isLeap year then 366 else 365

/-- `productivity_calendar_v2_date_valid` -/
def Date.Valid (date : Date) : Prop :=
  date.year ≥ 2000 ∧ date.year ≤ 2099 ∧ date.month ≥ 1 ∧ date.month ≤ 12 ∧ date.day ≥ 1 ∧ date.day ≤ daysInMonth date.year date.month

instance (date : Date) : Decidable date.Valid := inferInstanceAs (Decidable (_ ∧ _))

/-- `productivity_reminder_datetime_valid` -/
def DateTime.Valid (time : DateTime) : Prop := time.toDate.Valid ∧ time.hour ≤ 23 ∧ time.minute ≤ 59

instance (time : DateTime) : Decidable time.Valid := inferInstanceAs (Decidable (_ ∧ _))

/-- `productivity_calendar_v2_ordinal` and `productivity_utility_date_ordinal` -/
def ordinal (date : Date) : Nat :=
  total daysInYear 2000 (date.year - 2000) + total (daysInMonth date.year) 1 (date.month - 1) + (date.day - 1)

/-- The number of 2099-12-31. -/
def maximumOrdinal : Nat := ordinal ⟨2099, 12, 31⟩

/-- `productivity_utility_date_from_ordinal` -/
def dateFromOrdinal (ordinal : Nat) : Date :=
  let (year, ordinal) := locate daysInYear 99 2000 ordinal
  let (month, ordinal) := locate (daysInMonth year) 11 1 ordinal
  { year, month, day := ordinal + 1 }

/-- `productivity_calendar_v2_from_ordinal` -/
def fromOrdinal (ordinal : Nat) : Option Date := if ordinal > maximumOrdinal then none else some (dateFromOrdinal ordinal)

def monthIndex (date : Date) : Nat := (date.year - 2000) * 12 + (date.month - 1)

def minuteStamp (time : DateTime) : Nat := ordinal time.toDate * 1440 + time.hour * 60 + time.minute

/-- A time before the first or behind the last one is replaced by that. -/
def addMinutes (time : DateTime) (delta : Int) : DateTime :=
  let stamp : Int := minuteStamp time
  let maximum : Int := maximumOrdinal * 1440 + 1439
  let stamp := if delta > 0 ∧ stamp > maximum - delta then maximum else if delta < 0 ∧ stamp < -delta then 0 else stamp + delta
  let value := stamp.toNat
  let within := value % 1440
  { toDate := dateFromOrdinal (value / 1440), hour := within / 60, minute := within % 60 }

def compareDatetime (left right : DateTime) : Int :=
  if minuteStamp left < minuteStamp right then -1 else if minuteStamp left > minuteStamp right then 1 else 0

end ZenovOS.Productivity

import ZenovOS.Productivity.Records

/-! # Reminders

The reminders and their file, `ui_productivity_reminders_format.inc`, and how a repeated reminder goes on,
`ui_productivity_reminders_actions.inc`. -/

namespace ZenovOS.Productivity

/-- `ProductivityReminder` -/
structure Reminder extends DateTime where
  title : Bytes
  done : Bool
  notified : Bool
  repeats : Repeat
  repeatDay : Nat
deriving DecidableEq

/-! ### Repeats -/

/-- `productivity_reminder_add_month` -/
def addMonth (reminder : Reminder) : Bool × Reminder :=
  let index := monthIndex reminder.toDate
  if index ≥ 1199 then (false, reminder)
  else
    let next := index + 1
    let year := 2000 + next / 12
    let month := next % 12 + 1
    let anchorDay := if reminder.repeatDay ≠ 0 then reminder.repeatDay else reminder.day
    (true, { reminder with year, month, day := clampDay anchorDay year month })

/-- The loop of a monthly reminder. -/
def advanceMonths (now : DateTime) : Nat → Reminder → Bool × Reminder
  | 0, reminder => (false, reminder)
  | guard + 1, reminder =>
    if compareDatetime reminder.toDateTime now > 0 then (true, reminder)
    else
      match addMonth reminder with
      | (false, reminder) => (false, reminder)
      | (true, reminder) => advanceMonths now guard reminder

def Reminder.addDays (reminder : Reminder) (days : Nat) : Reminder :=
  { reminder with toDateTime := addMinutes reminder.toDateTime (days * 1440 : Nat) }

/-- The first branch of the repeat: one interval, and as many more as were missed. -/
def advanceDays (now : DateTime) (interval : Nat) (reminder : Reminder) : Bool × Reminder :=
  let currentOrdinal := ordinal reminder.toDate
  if currentOrdinal > maximumOrdinal - interval then (false, reminder)
  else
    let reminder := reminder.addDays interval
    if compareDatetime reminder.toDateTime now ≤ 0 then
      let dueOrdinal := ordinal reminder.toDate
      let nowOrdinal := ordinal now.toDate
      let extraIntervals := (nowOrdinal - dueOrdinal) / interval + 1
      let extraDays := extraIntervals * interval
      if extraDays > maximumOrdinal ∨ dueOrdinal > maximumOrdinal - extraDays then (false, reminder)
      else (true, reminder.addDays extraDays)
    else (true, reminder)

/-- `productivity_reminder_advance_repeat`; `now` is what the clock says. -/
def advanceRepeat (now : Option DateTime) (reminder : Reminder) : Bool × Reminder :=
  if reminder.repeats = .none then (false, reminder)
  else
    match now with
    | none => (false, reminder)
    | some now =>
      if reminder.repeats = .daily ∨ reminder.repeats = .weekly then advanceDays now (if reminder.repeats = .daily then 1 else 7) reminder
      else
        match addMonth reminder with
        | (false, reminder) => (false, reminder)
        | (true, reminder) => advanceMonths now 1200 reminder

/-! ### The file -/

/-- The repeat, its day and where the title stands: the first version of the lines has no repeat. -/
def parseReminderRepeat (line : Bytes) : Option (Repeat × Nat × Nat) :=
  if (line)[1]? = some 50 then
    if line.length < 28 ∨ !marked line [(23, 124), (26, 124)] then none
    else do
      let code ← (line)[22]?
      let repeats ← repeatFromCode code
      let repeatDay ← parseDigitsAt line 24 2
      if repeatDay < 1 ∨ repeatDay > 31 then none else some (repeats, repeatDay, 27)
  else if (line)[1]? = some 49 then some (.none, 0, 22)
  else none

/-- `R1|d|yyyy-mm-dd|hh:mm|title`, or `R2|d|yyyy-mm-dd|hh:mm|R|dd|title` -/
def parseReminderLine (line : Bytes) : Option Reminder :=
  if line.length < 23 ∨ line.length > 67 ∨
      !marked line [(0, 82), (2, 124), (4, 124), (9, 45), (12, 45), (15, 124), (18, 58), (21, 124)] then none
  else do
    let flag : UInt8 ← (line)[3]?
    let (repeats, repeatDay, titleOffset) ← parseReminderRepeat line
    let year ← parseDigitsAt line 5 4
    let month ← parseDigitsAt line 10 2
    let day ← parseDigitsAt line 13 2
    let hour ← parseDigitsAt line 16 2
    let minute ← parseDigitsAt line 19 2
    let due : DateTime := { year, month, day, hour, minute }
    let title := line.drop titleOffset
    if (flag ≠ 48 ∧ flag ≠ 49) ∨ ¬due.Valid ∨ !titleValid title 41 then none
    else some { due with title, done := flag = 49, notified := false, repeats, repeatDay := if repeatDay = 0 then day else repeatDay }

def remindersPath : String := "/reminders/reminders.db"

/-- The line of one reminder behind those before it. -/
def putReminderLine (data : Bytes) (reminder : Reminder) : Option Bytes :=
  if !titleValid reminder.title 41 then none
  else do
    let data ← putText 2304 data (ascii "R2|")
    let data ← putBytes 2304 2 data [if reminder.done then 49 else 48, 124]
    let data ← putBytes 2304 1 (appendUint 2304 data reminder.year 4) [45]
    let data ← putBytes 2304 1 (appendUint 2304 data reminder.month 2) [45]
    let data ← putBytes 2304 1 (appendUint 2304 data reminder.day 2) [124]
    let data ← putBytes 2304 1 (appendUint 2304 data reminder.hour 2) [58]
    let data ← putBytes 2304 6 (appendUint 2304 data reminder.minute 2) [124, repeatCode reminder.repeats, 124]
    let data ← putBytes 2304 1 (appendUint 2304 data (if reminder.repeatDay ≠ 0 then reminder.repeatDay else reminder.day) 2) [124]
    let data ← putText 2304 data reminder.title
    putBytes 2304 1 data [10]

section
variable {σ : Type} (S : Storage σ)

/-- `productivity_reminders_save` -/
def remindersSave (reminders : List Reminder) (desk : Desk σ) : Bool × Desk σ :=
  match utilitiesEnsureStorage S desk with
  | (false, desk) => (false, desk)
  | (true, desk) =>
    match reminders.foldlM putReminderLine [] with
    | none => (false, desk)
    | some data => writeFile S remindersPath data desk

/-- `productivity_reminders_load` -/
def remindersLoad (desk : Desk σ) : List Reminder × Desk σ :=
  match utilitiesEnsureStorage S desk with
  | (false, desk) => ([], desk)
  | (true, desk) =>
    match S.read desk.disk remindersPath 2303 with
    | none => ([], desk)
    | some data => (readRecords 24 parseReminderLine (Text.lines 10 data) [], desk)

end
end ZenovOS.Productivity

/-! ## Alarms

The alarms of the clock, their file and their input line: `ui_productivity_clock_v2.inc`. -/

namespace ZenovOS.Productivity

/-- `ProductivityClockAlarmV2` -/
structure Alarm where
  hour : Nat
  minute : Nat
  dayMask : Nat
  enabled : Bool
  lastFiredStamp : Nat
  title : Bytes
deriving DecidableEq

/-- The stamp of an alarm that has not fired. -/
def neverFired : Nat := 0xFFFFFFFF

/-! ### The file -/

/-- `A1|hh:mm|e|mmm|title` -/
def parseAlarmLine (line : Bytes) : Option Alarm :=
  if line.length < 16 ∨ line.length > 39 ∨ !marked line [(0, 65), (1, 49), (2, 124), (5, 58), (8, 124), (10, 124), (14, 124)] then none
  else do
    let flag : UInt8 ← (line)[9]?
    let hour ← parseDigitsAt line 3 2
    let minute ← parseDigitsAt line 6 2
    let dayMask ← parseDigitsAt line 11 3
    let title := line.drop 15
    if (flag ≠ 48 ∧ flag ≠ 49) ∨ hour > 23 ∨ minute > 59 ∨ dayMask > 127 ∨ !titleValid title 25 then none
    else some { hour, minute, dayMask, enabled := flag = 49, lastFiredStamp := neverFired, title }

def alarmsPath : String := "/clock/alarms.db"

/-- The line of one alarm behind those before it. -/
def putAlarmLine (data : Bytes) (alarm : Alarm) : Option Bytes :=
  if !titleValid alarm.title 25 then none
  else do
    let data ← putText 768 data (ascii "A1|")
    let data ← putText 768 (appendUint 768 data alarm.hour 2) (ascii ":")
    let data ← putBytes 768 3 (appendUint 768 data alarm.minute 2) [124, if alarm.enabled then 49 else 48, 124]
    let data ← putText 768 (appendUint 768 data alarm.dayMask 3) (ascii "|")
    let data ← putText 768 data alarm.title
    putText 768 data (ascii "\n")

section
variable {σ : Type} (S : Storage σ)

/-- `productivity_clock_v2_save_alarms` -/
def alarmsSave (alarms : List Alarm) (desk : Desk σ) : Bool × Desk σ :=
  match alarms.foldlM putAlarmLine [] with
  | none => (false, desk)
  | some data => writeFile S alarmsPath data desk

/-- `productivity_clock_v2_load_alarms` -/
def alarmsLoad (desk : Desk σ) : List Alarm :=
  match S.read desk.disk alarmsPath 767 with
  | none => []
  | some data => readRecords 8 parseAlarmLine (Text.lines 10 data) []

end

/-! ### The input line -/

/-- The days that have a name. -/
def maskSuffixes : List (Bytes × Nat) := [(ascii " !daily", 127), (ascii " !weekdays", 62), (ascii " !weekends", 65), (ascii " !once", 0)]

/-- `productivity_clock_v2_parse_alarm_input` -/
def parseAlarmInput (input : Bytes) : Option Alarm :=
  if input.length < 7 ∨ input.length ≥ 64 ∨ (trim input).length < 7 then none
  else
    let (text, dayMask) := cutSuffix (trim input) 127 maskSuffixes
    if text.length < 7 ∨ text[2]? ≠ some 58 ∨ text[5]? ≠ some 32 then none
    else do
      let hour ← parseDigitsAt text 0 2
      let minute ← parseDigitsAt text 3 2
      let title := (text.drop 6).dropWhile (· = 32)
      if hour > 23 ∨ minute > 59 ∨ !titleValid title 25 then none
      else some { hour, minute, dayMask, enabled := true, lastFiredStamp := neverFired, title }

/-- What is written for the days of an alarm. -/
def maskText (dayMask : Nat) : Bytes :=
  if dayMask = 62 then ascii " !weekdays"
  else if dayMask = 65 then ascii " !weekends"
  else if dayMask = 0 then ascii " !once"
  else ascii " !daily"

/-- `productivity_clock_v2_format_alarm_input` -/
def formatAlarmInput (alarm : Alarm) : Bytes :=
  let put (output text : Bytes) : Bytes := (appendText 64 output text).2
  let output := put (appendUint 64 [] alarm.hour 2) (ascii ":")
  let output := put (appendUint 64 output alarm.minute 2) (ascii " ")
  put (put output alarm.title) (maskText alarm.dayMask)

end ZenovOS.Productivity

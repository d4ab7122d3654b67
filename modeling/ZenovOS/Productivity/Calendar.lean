import ZenovOS.Productivity.Records

/-! # Calendar

The events of the calendar: `ui_productivity_calendar_v2_storage.inc` and the occurrences of `ui_productivity_calendar_clock_v2_common.inc`. -/

namespace ZenovOS.Productivity

/-- `ProductivityCalendarEventV2` -/
structure CalendarEvent extends DateTime where
  durationMinutes : Nat
  repeats : Repeat
  repeatDay : Nat
  title : Bytes
deriving DecidableEq

/-! ### Occurrences -/

section
variable (event : CalendarEvent)

def CalendarEvent.anchor : Nat := if event.repeatDay ≠ 0 then event.repeatDay else event.day

def CalendarEvent.occurrenceDay (year month : Nat) : Nat := clampDay event.anchor year month

/-- `productivity_calendar_v2_occurs_on` -/
def occursOn (date : Date) : Bool :=
  let eventOrdinal := ordinal event.toDate
  let targetOrdinal := ordinal date
  if targetOrdinal < eventOrdinal then false
  else
    match event.repeats with
    | .none => targetOrdinal = eventOrdinal
    | .daily => true
    | .weekly => (targetOrdinal - eventOrdinal) % 7 = 0
    | .monthly => if monthIndex date < monthIndex event.toDate then false else date.day = event.occurrenceDay date.year date.month

/-- The months from `index` on, up to the last one. -/
def nextMonthly (after : Nat) : Nat → Nat → Option Date
  | 0, _ => none
  | rounds + 1, index =>
    let year := 2000 + index / 12
    let month := index % 12 + 1
    let date : Date := { year, month, day := event.occurrenceDay year month }
    if ordinal date ≥ after then some date else nextMonthly after rounds (index + 1)

/-- `productivity_calendar_v2_next_occurrence` -/
def nextOccurrence (afterDate : Date) : Option Date :=
  let start := ordinal event.toDate
  let after := ordinal afterDate
  match event.repeats with
  | .none => if start < after then none else some event.toDate
  | .monthly =>
    let index := max (monthIndex afterDate) (monthIndex event.toDate)
    nextMonthly event after (1200 - index) index
  | _ =>
    let interval := if event.repeats = .daily then 1 else 7
    let target := if start < after then start + (after - start + interval - 1) / interval * interval else start
    fromOrdinal target

end

/-! ### The file -/

/-- `E2|yyyy-mm-dd|hh:mm|dddd|R|aa|title` -/
def parseCalendarLine (line : Bytes) : Option CalendarEvent :=
  if line.length < 31 ∨ line.length > 70 ∨
      !marked line [(0, 69), (1, 50), (2, 124), (7, 45), (10, 45), (13, 124), (16, 58), (19, 124), (24, 124), (26, 124), (29, 124)] then none
  else do
    let year ← parseDigitsAt line 3 4
    let month ← parseDigitsAt line 8 2
    let day ← parseDigitsAt line 11 2
    let hour ← parseDigitsAt line 14 2
    let minute ← parseDigitsAt line 17 2
    let durationMinutes ← parseDigitsAt line 20 4
    let repeatDay ← parseDigitsAt line 27 2
    let code ← (line)[25]?
    let repeats ← repeatFromCode code
    let title := line.drop 30
    if ¬Date.Valid ⟨year, month, day⟩ ∨ hour > 23 ∨ minute > 59 ∨ durationMinutes < 1 ∨ durationMinutes > 1440 ∨ repeatDay < 1 ∨ repeatDay > 31 ∨
        !titleValid title 33 then none
    else some { year, month, day, hour, minute, durationMinutes, repeats, repeatDay, title }

/-- The characters of the two titles are compared as the signed `char` of the source, letters in lower case. -/
def compareText : Bytes → Bytes → Int
  | [], [] => 0
  | [], _ :: _ => -1
  | _ :: _, [] => 1
  | left :: lefts, right :: rights =>
    let left := (asciiLower left).toInt8
    let right := (asciiLower right).toInt8
    if left < right then -1 else if left > right then 1 else compareText lefts rights

/-- `productivity_calendar_v2_before` -/
def calendarBefore (left right : CalendarEvent) : Bool :=
  let leftDay := ordinal left.toDate
  let rightDay := ordinal right.toDate
  if leftDay ≠ rightDay then leftDay < rightDay
  else
    let leftTime := left.hour * 60 + left.minute
    let rightTime := right.hour * 60 + right.minute
    if leftTime ≠ rightTime then leftTime < rightTime else compareText left.title right.title < 0

/-- The inner loop of the sort, from the end of the sorted events on. -/
def insertEvent (value : CalendarEvent) : List CalendarEvent → List CalendarEvent
  | [] => [value]
  | last :: before => if calendarBefore value last then last :: insertEvent value before else value :: last :: before

/-- `productivity_calendar_v2_sort` -/
def sortEvents (events : List CalendarEvent) : List CalendarEvent :=
  (events.foldl (fun sorted value => insertEvent value sorted) []).reverse

def calendarPath : String := "/calendar/events-v2.db"

def projectionPath : String := "/calendar/events.db"

/-- The line of one event behind those before it. -/
def putCalendarLine (data : Bytes) (event : CalendarEvent) : Option Bytes :=
  if !titleValid event.title 33 then none
  else do
    let data ← putText 2048 data (ascii "E2|")
    let data ← putText 2048 (appendUint 2048 data event.year 4) (ascii "-")
    let data ← putText 2048 (appendUint 2048 data event.month 2) (ascii "-")
    let data ← putText 2048 (appendUint 2048 data event.day 2) (ascii "|")
    let data ← putText 2048 (appendUint 2048 data event.hour 2) (ascii ":")
    let data ← putText 2048 (appendUint 2048 data event.minute 2) (ascii "|")
    let data ← putBytes 2048 3 (appendUint 2048 data event.durationMinutes 4) [124, repeatCode event.repeats, 124]
    let data ← putText 2048 (appendUint 2048 data event.anchor 2) (ascii "|")
    let data ← putText 2048 data event.title
    putText 2048 data (ascii "\n")

/-- `productivity_date_text` -/
def dateText (date : Date) : Bytes :=
  let put (output : Bytes) : Bytes := if output.length + 1 < 11 then output ++ [45] else output
  appendUint 11 (put (appendUint 11 (put (appendUint 11 [] date.year 4)) date.month 2)) date.day 2

/-- The next occurrences, for the older program. -/
def putProjection (today : Date) (data : Bytes) (count : Nat) : List CalendarEvent → Option Bytes
  | [] => some data
  | source :: events =>
    if count ≥ 16 then some data
    else
      match nextOccurrence source today with
      | none => putProjection today data count events
      | some date => do
        let data ← putText 1024 data (dateText date)
        let data ← putText 1024 data (ascii "|")
        let data ← putText 1024 data (source.title.take 24)
        let data ← putText 1024 data (ascii "\n")
        putProjection today data (count + 1) events

section
variable {σ : Type} (S : Storage σ)

/-- `productivity_calendar_v2_save_projection`; `today` is read from the clock, or it is the selected day. -/
def calendarSaveProjection (today : Date) (events : List CalendarEvent) (desk : Desk σ) : Bool × Desk σ :=
  match putProjection today [] 0 events with
  | none => (false, desk)
  | some data => writeFile S projectionPath data desk

/-- `productivity_calendar_v2_save` -/
def calendarSave (today : Date) (events : List CalendarEvent) (desk : Desk σ) : Bool × Desk σ :=
  match events.foldlM putCalendarLine [] with
  | none => (false, desk)
  | some data =>
    match writeFile S calendarPath data desk with
    | (false, desk) => (false, desk)
    | (true, desk) => calendarSaveProjection S today events desk

/-- A line of the older file, `yyyy-mm-dd|title`; what does not belong into a title is left out. -/
def parseLegacyLine (line : Bytes) : Option (Date × Bytes) :=
  if line.length < 12 ∨ !marked line [(4, 45), (7, 45), (10, 124)] then none
  else do
    let year ← parseDigitsAt line 0 4
    let month ← parseDigitsAt line 5 2
    let day ← parseDigitsAt line 8 2
    if ¬Date.Valid ⟨year, month, day⟩ then none
    else some (⟨year, month, day⟩, ((line.drop 11).filter titleCharacter).take 24)

/-- `productivity_calendar_load` -/
def legacyLoad (desk : Desk σ) : List (Date × Bytes) × Desk σ :=
  match ensureStorage S desk with
  | (false, desk) => ([], desk)
  | (true, desk) =>
    match S.read desk.disk projectionPath 1023 with
    | none => ([], desk)
    | some data => (readRecords 16 parseLegacyLine (Text.lines 10 data) [], desk)

/-- `productivity_calendar_v2_migrate_legacy` -/
def migrateLegacy (today : Date) (desk : Desk σ) : List CalendarEvent × Desk σ :=
  let (legacy, desk) := legacyLoad S desk
  let events := legacy.map fun (date, title) =>
    { date with hour := 9, minute := 0, durationMinutes := 60, repeats := .none, repeatDay := date.day, title }
  if events = [] then ([], desk)
  else
    let events := sortEvents events
    (events, (calendarSave S today events desk).2)

/-- `productivity_calendar_v2_load` -/
def calendarLoad (today : Date) (desk : Desk σ) : List CalendarEvent × Desk σ :=
  match S.read desk.disk calendarPath 2047 with
  | none => migrateLegacy S today desk
  | some data =>
    let events := sortEvents (readRecords 16 parseCalendarLine (Text.lines 10 data) [])
    (events, (calendarSaveProjection S today events desk).2)

end

/-! ### The input line -/

/-- The digits of a duration, with what follows them. -/
def readDuration : Nat → Bytes → Option (Nat × Bytes)
  | duration, [] => some (duration, [])
  | duration, c :: text =>
    if c ≥ 48 ∧ c ≤ 57 then if duration > 1440 then none else readDuration (duration * 10 + (c.toNat - 48)) text
    else some (duration, c :: text)

/-- A duration at the end, cut off. -/
def cutDuration (text : Bytes) : Option (Nat × Bytes) :=
  match lastMark 43 text with
  | none => some (60, text)
  | some start => do
    let digits := text.drop (start + 2)
    let (duration, rest) ← readDuration 0 digits
    if digits = [] ∨ rest ≠ [] ∨ duration < 1 ∨ duration > 1440 then none
    else some (duration, trim (text.take start))

/-- A time at the end, cut off. -/
def cutTime (text : Bytes) : Option (Nat × Nat × Bytes) :=
  match lastMark 64 text with
  | none => some (9, 0, text)
  | some start =>
    let offset := start + 2
    if text.length - offset ≠ 5 ∨ text[offset + 2]? ≠ some 58 then none
    else do
      let hour ← parseDigitsAt text offset 2
      let minute ← parseDigitsAt text (offset + 3) 2
      if hour > 23 ∨ minute > 59 then none
      else some (hour, minute, trim (text.take start))

def repeatSuffixes : List (Bytes × Repeat) :=
  [(ascii " !daily", .daily), (ascii " !weekly", .weekly), (ascii " !monthly", .monthly), (ascii " !once", .none)]

/-- `productivity_calendar_v2_parse_input`; `selected` is the day that the calendar shows. -/
def parseCalendarInput (selected : Date) (input : Bytes) : Option CalendarEvent :=
  if input = [] ∨ input.length ≥ 80 ∨ trim input = [] then none
  else do
    let (text, repeats) := cutSuffix (trim input) .none repeatSuffixes
    let (durationMinutes, text) ← cutDuration text
    let (hour, minute, title) ← cutTime text
    if !titleValid title 33 then none
    else some { selected with hour, minute, durationMinutes, repeats, repeatDay := selected.day, title }

/-- What is written for a repeat; nothing for an event that occurs once. -/
def repeatText : Repeat → Bytes
  | .daily => ascii " !daily"
  | .weekly => ascii " !weekly"
  | .monthly => ascii " !monthly"
  | .none => []

/-- `productivity_calendar_v2_format_input` -/
def formatCalendarInput (event : CalendarEvent) : Bytes :=
  let put (output text : Bytes) : Bytes := (appendText 80 output text).2
  let output := put (put [] event.title) (ascii " @")
  let output := put (appendUint 80 output event.hour 2) (ascii ":")
  let output := put (appendUint 80 output event.minute 2) (ascii " +")
  put (appendUint 80 output event.durationMinutes 0) (repeatText event.repeats)

end ZenovOS.Productivity

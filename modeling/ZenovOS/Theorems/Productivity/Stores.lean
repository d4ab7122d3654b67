import ZenovOS.Lib.Ranking
import ZenovOS.Theorems.Productivity.Calendar
import ZenovOS.Theorems.Productivity.Records
import ZenovOS.Theorems.Productivity.Reminders

/-! The files of the reminders, the calendar and the alarms give back what was saved. -/

namespace ZenovOS.Productivity
open Bytes Decimal

/-! ### The calendar -/

section
variable {event : CalendarEvent}

/-- The line of an event. -/
def calendarLine (event : CalendarEvent) : Bytes :=
  ascii "E2|" ++ (padded 4 event.year ++ ascii "-") ++ (padded 2 event.month ++ ascii "-") ++ (padded 2 event.day ++ ascii "|") ++
    (padded 2 event.hour ++ ascii ":") ++ (padded 2 event.minute ++ ascii "|") ++
    (padded 4 event.durationMinutes ++ [124, repeatCode event.repeats, 124]) ++ (padded 2 event.anchor ++ ascii "|") ++ event.title

theorem CalendarEvent.Valid.small (h : event.Valid) : event.year < 10 ^ 4 ∧ event.month < 10 ^ 2 ∧ event.day < 10 ^ 2 ∧ event.hour < 10 ^ 2 ∧
    event.minute < 10 ^ 2 ∧ event.durationMinutes < 10 ^ 4 ∧ event.anchor < 10 ^ 2 := by
  obtain ⟨hdate, hhour, hminute, hduration, hrepeat, -⟩ := h
  obtain ⟨-, hyear, -, hmonth, -, hday⟩ := hdate
  have hlength := (daysInMonth_bounds event.year event.month).2
  refine ⟨?_, ?_, ?_, ?_, ?_, ?_, ?_⟩
  all_goals first | omega | skip
  rw [CalendarEvent.anchor]
  split <;> omega

theorem puts_calendarLine (h : event.Valid) : Puts 2048 (fun data => putCalendarLine data event) (calendarLine event ++ [10]) := by
  obtain ⟨hyear, hmonth, hday, hhour, hminute, hduration, hanchor⟩ := h.small
  have htitle : ¬(!titleValid event.title 33) = true := by
    rw [h.title]
    exact Bool.false_ne_true
  simp only [putCalendarLine, if_neg htitle]
  refine Puts.congr (puts_text.bind ((puts_text.uint (by omega) (by decide)).bind ((puts_text.uint (by omega) (by decide)).bind
    ((puts_text.uint (by omega) (by decide)).bind ((puts_text.uint (by omega) (by decide)).bind
    ((puts_text.uint (by omega) (by decide)).bind ((Puts.uint (puts_bytes (Nat.le_add_left 3 3)) (by omega) (by decide)).bind
    ((puts_text.uint (by omega) (by decide)).bind (puts_text.bind puts_text))))))))) ?_
  simp only [calendarLine, List.append_assoc]
  rfl

theorem parseCalendarLine_calendarLine (h : event.Valid) : parseCalendarLine (calendarLine event) = some event := by
  obtain ⟨hyear, hmonth, hday, hhour, hminute, hduration, hanchor⟩ := h.small
  obtain ⟨y1, y2, y3, y4, hy⟩ := List.length_eq_four.mp (length_padded hyear (by decide))
  obtain ⟨m1, m2, hm⟩ := List.length_eq_two.mp (length_padded hmonth (by decide))
  obtain ⟨d1, d2, hd⟩ := List.length_eq_two.mp (length_padded hday (by decide))
  obtain ⟨h1, h2, hh⟩ := List.length_eq_two.mp (length_padded hhour (by decide))
  obtain ⟨n1, n2, hn⟩ := List.length_eq_two.mp (length_padded hminute (by decide))
  obtain ⟨t1, t2, t3, t4, ht⟩ := List.length_eq_four.mp (length_padded hduration (by decide))
  obtain ⟨a1, a2, ha⟩ := List.length_eq_two.mp (length_padded hanchor (by decide))
  obtain ⟨line, hline⟩ : ∃ line, line = calendarLine event := ⟨_, rfl⟩
  have hexplicit : line = 69 :: 50 :: 124 :: y1 :: y2 :: y3 :: y4 :: 45 :: m1 :: m2 :: 45 :: d1 :: d2 :: 124 :: h1 :: h2 :: 58 :: n1 :: n2 ::
      124 :: t1 :: t2 :: t3 :: t4 :: 124 :: repeatCode event.repeats :: 124 :: a1 :: a2 :: 124 :: event.title := by
    rw [hline, calendarLine, hy, hm, hd, hh, hn, ht, ha]
    rfl
  have hlength : 31 ≤ line.length ∧ line.length ≤ 70 := by
    obtain ⟨hne, hshort, -⟩ := titleValid_iff.mp h.title
    have hpos := List.length_pos_of_ne_nil hne
    have hcount : line.length = 30 + event.title.length := by
      rw [hexplicit]
      simp only [List.length_cons]
      omega
    omega
  have hmarked : marked line [(0, 69), (1, 50), (2, 124), (7, 45), (10, 45), (13, 124), (16, 58), (19, 124), (24, 124), (26, 124), (29, 124)] = true := by
    rw [hexplicit]
    rfl
  have hread_year : parseDigitsAt line 3 4 = some event.year := parseDigitsAt_padded (by rw [hexplicit, hy]; rfl) hyear (by decide)
  have hread_month : parseDigitsAt line 8 2 = some event.month := parseDigitsAt_padded (by rw [hexplicit, hm]; rfl) hmonth (by decide)
  have hread_day : parseDigitsAt line 11 2 = some event.day := parseDigitsAt_padded (by rw [hexplicit, hd]; rfl) hday (by decide)
  have hread_hour : parseDigitsAt line 14 2 = some event.hour := parseDigitsAt_padded (by rw [hexplicit, hh]; rfl) hhour (by decide)
  have hread_minute : parseDigitsAt line 17 2 = some event.minute := parseDigitsAt_padded (by rw [hexplicit, hn]; rfl) hminute (by decide)
  have hread_duration : parseDigitsAt line 20 4 = some event.durationMinutes := parseDigitsAt_padded (by rw [hexplicit, ht]; rfl) hduration (by decide)
  have hread_anchor : parseDigitsAt line 27 2 = some event.anchor := parseDigitsAt_padded (by rw [hexplicit, ha]; rfl) hanchor (by decide)
  have hcode : (line)[25]? = some (repeatCode event.repeats) := by
    rw [hexplicit]
    rfl
  have htitle : line.drop 30 = event.title := by
    rw [hexplicit]
    rfl
  have hrepeat_day : event.anchor = event.repeatDay := if_pos (by have := h.repeatDay; omega)
  have hchecks : ¬(¬Date.Valid ⟨event.year, event.month, event.day⟩ ∨ event.hour > 23 ∨ event.minute > 59 ∨ event.durationMinutes < 1 ∨
      event.durationMinutes > 1440 ∨ event.repeatDay < 1 ∨ event.repeatDay > 31 ∨ (!titleValid event.title 33) = true) := by
    obtain ⟨hdate, hhour, hminute, hduration, hrepeat, htitle⟩ := h
    rw [htitle]
    rintro (hbad | hbad | hbad | hbad | hbad | hbad | hbad | hbad)
    · exact hbad hdate
    all_goals first | omega | cases hbad
  have hshape : ¬(line.length < 31 ∨ line.length > 70 ∨ (!marked line
      [(0, 69), (1, 50), (2, 124), (7, 45), (10, 45), (13, 124), (16, 58), (19, 124), (24, 124), (26, 124), (29, 124)]) = true) := by
    rw [hmarked]
    rintro (hbad | hbad | hbad)
    all_goals first | omega | cases hbad
  rw [← hline, parseCalendarLine, if_neg hshape]
  simp only [Option.bind_eq_bind, Option.bind_some, hread_year, hread_month, hread_day, hread_hour, hread_minute, hread_duration, hread_anchor,
    hcode, repeatFromCode_repeatCode, htitle, hrepeat_day, if_neg hchecks]

theorem newline_notMem_calendarLine (h : event.Valid) : 10 ∉ calendarLine event := by
  have htitle : 10 ∉ event.title := (titleValid_iff.mp h.title).notMem (by decide)
  have hcode : (10 : UInt8) ≠ repeatCode event.repeats := by cases event.repeats <;> decide
  have hmarks : (10 : UInt8) ∉ ascii "E2|" ∧ (10 : UInt8) ∉ ascii "-" ∧ (10 : UInt8) ∉ ascii "|" ∧ (10 : UInt8) ∉ ascii ":" := by decide
  simp [calendarLine, newline_notMem_padded, htitle, hcode, hmarks]

/-! ### The order of the events -/

/-- How a character of a title is compared. -/
def textKey (c : UInt8) : Int := (asciiLower c).toInt8.toInt

theorem compareText_neg {left right : Bytes} : compareText left right < 0 ↔ left.map textKey < right.map textKey := by
  induction left generalizing right with
  | nil =>
    cases right with
    | nil => exact iff_of_false (lt_irrefl _) (List.lt_irrefl _)
    | cons c right => exact iff_of_true (show (-1 : Int) < 0 by decide) (List.nil_lt_cons ..)
  | cons b left ih =>
    cases right with
    | nil => exact iff_of_false (show ¬(1 : Int) < 0 by decide) (List.not_lt_nil _)
    | cons c right =>
      rw [compareText, List.map_cons, List.map_cons, List.cons_lt_cons_iff, ← ih]
      have hless (b c : UInt8) : (asciiLower b).toInt8 < (asciiLower c).toInt8 ↔ textKey b < textKey c := Int8.lt_iff_toInt_lt
      simp only [hless]
      by_cases hbc : textKey b < textKey c
      · rw [if_pos hbc]
        exact iff_of_true (by decide) (Or.inl hbc)
      · rw [if_neg hbc]
        by_cases hcb : textKey c < textKey b
        · rw [if_pos hcb]
          exact iff_of_false (by decide) (by omega)
        · rw [if_neg hcb]
          exact ⟨fun h => Or.inr ⟨by omega, h⟩, fun h => (h.resolve_left hbc).2⟩

theorem ranking_calendarBefore : Ranking fun left right => calendarBefore left right = true := by
  have hkey (key : CalendarEvent → Nat) : Ranking fun left right => key left < key right := ranking_lt.key key
  have hday : Ranking fun left right : CalendarEvent => ordinal left.toDate < ordinal right.toDate := hkey fun event => ordinal event.toDate
  have htime : Ranking fun left right : CalendarEvent => left.hour * 60 + left.minute < right.hour * 60 + right.minute :=
    hkey fun event => event.hour * 60 + event.minute
  have htitle : Ranking fun left right : CalendarEvent => left.title.map textKey < right.title.map textKey :=
    ranking_list.key fun event : CalendarEvent => event.title.map textKey
  have hlex := hday.lex (htime.lex htitle)
  have heq : (fun left right => calendarBefore left right = true) = Ranking.Lex (fun left right : CalendarEvent => ordinal left.toDate < ordinal right.toDate)
      (Ranking.Lex (fun left right => left.hour * 60 + left.minute < right.hour * 60 + right.minute)
        fun left right => left.title.map textKey < right.title.map textKey) := by
    funext left right
    rw [calendarBefore, Ranking.Lex, Ranking.Lex, ← compareText_neg]
    dsimp only
    split
    · next hne => simp only [decide_eq_true_eq, eq_iff_iff]; omega
    · next heq =>
      split
      · next hne => simp only [decide_eq_true_eq, eq_iff_iff]; omega
      · next htimes => simp only [decide_eq_true_eq, eq_iff_iff]; omega
  rw [heq]
  exact hlex

/-- No event stands behind one that it comes before. -/
def InOrder (events : List CalendarEvent) : Prop := events.Pairwise fun left right => calendarBefore right left = false

theorem insertEvent_eq (value : CalendarEvent) (sorted : List CalendarEvent) :
    insertEvent value sorted = sorted.orderedInsert (fun x y => !calendarBefore x y) value := by
  induction sorted with
  | nil => rfl
  | cons last before ih =>
    rw [insertEvent, List.orderedInsert_cons, ih]
    cases calendarBefore value last <;> rfl

theorem sortEvents_eq (events : List CalendarEvent) :
    sortEvents events = (events.reverse.insertionSort fun x y => !calendarBefore x y).reverse := by
  have hinsert : (fun sorted value => insertEvent value sorted) = fun sorted value => sorted.orderedInsert (fun x y => !calendarBefore x y) value := by
    funext sorted value
    exact insertEvent_eq value sorted
  rw [sortEvents, hinsert, List.insertionSort, List.foldr_reverse]

theorem sortEvents_sorts (events : List CalendarEvent) : (sortEvents events).Perm events ∧ InOrder (sortEvents events) ∧
    ∀ part : List CalendarEvent, part.Sublist events → InOrder part → part.Sublist (sortEvents events) := by
  have := ranking_calendarBefore.flip.total_not
  have := ranking_calendarBefore.flip.trans_not
  rw [sortEvents_eq]
  refine ⟨?_, ?_, fun part hpart horder => ?_⟩
  · exact (List.reverse_perm _).trans ((List.perm_insertionSort _ _).trans (List.reverse_perm events))
  · have hsorted := List.pairwise_insertionSort (fun x y => !calendarBefore x y) events.reverse
    refine List.pairwise_reverse.mpr (hsorted.imp fun {x y} hxy => ?_)
    simpa using hxy
  · have hreverse : part.reverse.Pairwise fun x y => (!calendarBefore x y) = true :=
      List.pairwise_reverse.mpr (horder.imp fun {x y} hxy => by simpa using hxy)
    have hsublist := List.sublist_insertionSort hreverse (List.reverse_sublist.mpr hpart)
    rwa [← List.reverse_sublist, List.reverse_reverse] at hsublist

/-! ### Saving and loading the calendar -/

variable {σ : Type} {S : Storage σ} {desk desk' : Desk σ}

theorem length_calendarLine (h : event.Valid) : (calendarLine event ++ [10]).length ≤ 63 := by
  obtain ⟨hyear, hmonth, hday, hhour, hminute, hduration, hanchor⟩ := h.small
  have htitle := (titleValid_iff.mp h.title).short
  have hascii : (ascii "E2|").length = 3 ∧ (ascii "-").length = 1 ∧ (ascii "|").length = 1 ∧ (ascii ":").length = 1 := ⟨rfl, rfl, rfl, rfl⟩
  simp only [calendarLine, List.length_append, List.length_cons, List.length_nil, hascii, length_padded hyear (by decide), length_padded hmonth (by decide),
    length_padded hday (by decide), length_padded hhour (by decide), length_padded hminute (by decide), length_padded hduration (by decide),
    length_padded hanchor (by decide)]
  omega

theorem read_calendarSaveProjection (hS : S.Faithful) (today : Date) (events : List CalendarEvent) (capacity : Nat) :
    S.read (calendarSaveProjection S today events desk).2.disk calendarPath capacity = S.read desk.disk calendarPath capacity := by
  rw [calendarSaveProjection]
  split
  · rfl
  · exact read_writeFile_other hS (by decide) _ _

def calendarFormat : LineFormat CalendarEvent where
  put := putCalendarLine
  parse := parseCalendarLine
  Valid := CalendarEvent.Valid
  line := calendarLine
  reset := id
  buffer := 2048
  count := 16
  size := 63
  puts _ h := puts_calendarLine h
  parses _ h := parseCalendarLine_calendarLine h
  line_ne_nil _ _ := by simp [calendarLine, ascii]
  newline_notMem _ h := newline_notMem_calendarLine h
  length_line _ h := length_calendarLine h
  fits := by decide

theorem calendarLoad_calendarSave (hS : S.Faithful) {events : List CalendarEvent} (hcount : events.length ≤ 16) (hvalid : ∀ event ∈ events, event.Valid)
    {today : Date} (h : calendarSave S today events desk = (true, desk')) (today' : Date) : (calendarLoad S today' desk').1 = sortEvents events := by
  have hput : events.foldlM putCalendarLine [] = some (calendarFormat.text events) := calendarFormat.foldlM_put hcount hvalid
  have hlength : (calendarFormat.text events).length + 3 < 2048 := calendarFormat.length_text hcount hvalid
  have hrecords : readRecords 16 parseCalendarLine (Text.lines 10 (calendarFormat.text events)) [] = events.map id :=
    calendarFormat.readRecords_text hcount hvalid
  rw [calendarSave, hput] at h
  dsimp only at h
  cases hwrite : writeFile S calendarPath (calendarFormat.text events) desk with
  | mk written desk1 =>
    rw [hwrite] at h
    cases written with
    | false => cases h
    | true =>
      have hread : S.read desk'.disk calendarPath 2047 = some (calendarFormat.text events) := by
        have hprojection : S.read (calendarSaveProjection S today events desk1).2.disk calendarPath 2047 = S.read desk1.disk calendarPath 2047 :=
          read_calendarSaveProjection hS today events 2047
        dsimp only at h
        rw [h] at hprojection
        exact hprojection.trans (read_writeFile hS hwrite (by omega))
      rw [calendarLoad, hread]
      dsimp only
      rw [hrecords, List.map_id]

end

/-! ### The reminders -/

section
variable {reminder : Reminder}

/-- The line of a reminder. -/
def reminderLine (reminder : Reminder) : Bytes :=
  ascii "R2|" ++ [if reminder.done then 49 else 48, 124] ++ (padded 4 reminder.year ++ [45]) ++ (padded 2 reminder.month ++ [45]) ++
    (padded 2 reminder.day ++ [124]) ++ (padded 2 reminder.hour ++ [58]) ++ (padded 2 reminder.minute ++ [124, repeatCode reminder.repeats, 124]) ++
    (padded 2 reminder.repeatDay ++ [124]) ++ reminder.title

theorem Reminder.Valid.small (h : reminder.Valid) : reminder.year < 10 ^ 4 ∧ reminder.month < 10 ^ 2 ∧ reminder.day < 10 ^ 2 ∧
    reminder.hour < 10 ^ 2 ∧ reminder.minute < 10 ^ 2 ∧ reminder.repeatDay < 10 ^ 2 := by
  obtain ⟨⟨⟨-, hyear, -, hmonth, -, hday⟩, hhour, hminute⟩, hrepeat, -⟩ := h
  have hlength := (daysInMonth_bounds reminder.year reminder.month).2
  refine ⟨?_, ?_, ?_, ?_, ?_, ?_⟩ <;> omega

theorem puts_reminderLine (h : reminder.Valid) : Puts 2304 (fun data => putReminderLine data reminder) (reminderLine reminder ++ [10]) := by
  obtain ⟨hyear, hmonth, hday, hhour, hminute, hrepeat⟩ := h.small
  have htitle : ¬(!titleValid reminder.title 41) = true := by
    rw [h.title]
    exact Bool.false_ne_true
  have hrepeat_day : (if reminder.repeatDay ≠ 0 then reminder.repeatDay else reminder.day) = reminder.repeatDay := if_pos (by have := h.repeatDay; omega)
  have hone (c : UInt8) : Puts 2304 (fun data => putBytes 2304 1 data [c]) [c] := puts_bytes (show 1 ≤ 1 + 3 by decide)
  have htwo (b c : UInt8) : Puts 2304 (fun data => putBytes 2304 2 data [b, c]) [b, c] := puts_bytes (show 2 ≤ 2 + 3 by decide)
  have hthree (b c d : UInt8) : Puts 2304 (fun data => putBytes 2304 6 data [b, c, d]) [b, c, d] := puts_bytes (show 6 ≤ 3 + 3 by decide)
  simp only [putReminderLine, if_neg htitle, hrepeat_day]
  refine Puts.congr (puts_text.bind ((htwo _ _).bind (((hone _).uint (by omega) (by decide)).bind (((hone _).uint (by omega) (by decide)).bind
    (((hone _).uint (by omega) (by decide)).bind (((hone _).uint (by omega) (by decide)).bind (((hthree _ _ _).uint (by omega) (by decide)).bind
    (((hone _).uint (by omega) (by decide)).bind (puts_text.bind (hone _)))))))))) ?_
  simp only [reminderLine, List.append_assoc]

theorem parseReminderLine_reminderLine (h : reminder.Valid) :
    parseReminderLine (reminderLine reminder) = some { reminder with notified := false } := by
  obtain ⟨hyear, hmonth, hday, hhour, hminute, hrepeat⟩ := h.small
  obtain ⟨y1, y2, y3, y4, hy⟩ := List.length_eq_four.mp (length_padded hyear (by decide))
  obtain ⟨m1, m2, hm⟩ := List.length_eq_two.mp (length_padded hmonth (by decide))
  obtain ⟨d1, d2, hd⟩ := List.length_eq_two.mp (length_padded hday (by decide))
  obtain ⟨h1, h2, hh⟩ := List.length_eq_two.mp (length_padded hhour (by decide))
  obtain ⟨n1, n2, hn⟩ := List.length_eq_two.mp (length_padded hminute (by decide))
  obtain ⟨a1, a2, ha⟩ := List.length_eq_two.mp (length_padded hrepeat (by decide))
  obtain ⟨line, hline⟩ : ∃ line, line = reminderLine reminder := ⟨_, rfl⟩
  have hexplicit : line = 82 :: 50 :: 124 :: (if reminder.done then 49 else 48) :: 124 :: y1 :: y2 :: y3 :: y4 :: 45 :: m1 :: m2 :: 45 :: d1 :: d2 ::
      124 :: h1 :: h2 :: 58 :: n1 :: n2 :: 124 :: repeatCode reminder.repeats :: 124 :: a1 :: a2 :: 124 :: reminder.title := by
    rw [hline, reminderLine, hy, hm, hd, hh, hn, ha]
    rfl
  have hlength : 28 ≤ line.length ∧ line.length ≤ 67 := by
    obtain ⟨hne, hshort, -⟩ := titleValid_iff.mp h.title
    have hpos := List.length_pos_of_ne_nil hne
    have hcount : line.length = 27 + reminder.title.length := by
      rw [hexplicit]
      simp only [List.length_cons]
      omega
    omega
  have hmarked : marked line [(0, 82), (2, 124), (4, 124), (9, 45), (12, 45), (15, 124), (18, 58), (21, 124)] = true := by
    rw [hexplicit]
    rfl
  have hmarked_repeat : marked line [(23, 124), (26, 124)] = true := by
    rw [hexplicit]
    rfl
  have hread_year : parseDigitsAt line 5 4 = some reminder.year := parseDigitsAt_padded (by rw [hexplicit, hy]; rfl) hyear (by decide)
  have hread_month : parseDigitsAt line 10 2 = some reminder.month := parseDigitsAt_padded (by rw [hexplicit, hm]; rfl) hmonth (by decide)
  have hread_day : parseDigitsAt line 13 2 = some reminder.day := parseDigitsAt_padded (by rw [hexplicit, hd]; rfl) hday (by decide)
  have hread_hour : parseDigitsAt line 16 2 = some reminder.hour := parseDigitsAt_padded (by rw [hexplicit, hh]; rfl) hhour (by decide)
  have hread_minute : parseDigitsAt line 19 2 = some reminder.minute := parseDigitsAt_padded (by rw [hexplicit, hn]; rfl) hminute (by decide)
  have hread_repeat : parseDigitsAt line 24 2 = some reminder.repeatDay := parseDigitsAt_padded (by rw [hexplicit, ha]; rfl) hrepeat (by decide)
  have hversion : (line)[1]? = some 50 := by
    rw [hexplicit]
    rfl
  have hflag : (line)[3]? = some (if reminder.done then 49 else 48) := by
    rw [hexplicit]
    rfl
  have hcode : (line)[22]? = some (repeatCode reminder.repeats) := by
    rw [hexplicit]
    rfl
  have htitle : line.drop 27 = reminder.title := by
    rw [hexplicit]
    rfl
  have hrepeat_parse : parseReminderRepeat line = some (reminder.repeats, reminder.repeatDay, 27) := by
    have hday_checks : ¬(reminder.repeatDay < 1 ∨ reminder.repeatDay > 31) := by
      have hbounds := h.repeatDay
      omega
    have hshape : ¬(line.length < 28 ∨ (!marked line [(23, 124), (26, 124)]) = true) := by
      rw [hmarked_repeat]
      rintro (hbad | hbad)
      all_goals first | omega | cases hbad
    rw [parseReminderRepeat, if_pos hversion, if_neg hshape]
    simp only [Option.bind_eq_bind, Option.bind_some, hcode, repeatFromCode_repeatCode, hread_repeat, if_neg hday_checks]
  have hshape : ¬(line.length < 23 ∨ line.length > 67 ∨
      (!marked line [(0, 82), (2, 124), (4, 124), (9, 45), (12, 45), (15, 124), (18, 58), (21, 124)]) = true) := by
    rw [hmarked]
    rintro (hbad | hbad | hbad)
    all_goals first | omega | cases hbad
  have hdone : ¬((if reminder.done then (49 : UInt8) else 48) ≠ 48 ∧ (if reminder.done then (49 : UInt8) else 48) ≠ 49) ∧
      decide ((if reminder.done then (49 : UInt8) else 48) = 49) = reminder.done := by
    cases reminder.done <;> decide
  have hchecks : ¬(((if reminder.done then (49 : UInt8) else 48) ≠ 48 ∧ (if reminder.done then (49 : UInt8) else 48) ≠ 49) ∨
      ¬DateTime.Valid ⟨⟨reminder.year, reminder.month, reminder.day⟩, reminder.hour, reminder.minute⟩ ∨ (!titleValid reminder.title 41) = true) := by
    rw [h.title]
    rintro (hbad | hbad | hbad)
    · exact hdone.1 hbad
    · exact hbad h.due
    · cases hbad
  have hrepeat_day : (if reminder.repeatDay = 0 then reminder.day else reminder.repeatDay) = reminder.repeatDay :=
    if_neg (by have := h.repeatDay; omega)
  rw [← hline, parseReminderLine, if_neg hshape]
  simp only [Option.bind_eq_bind, Option.bind_some, hflag, hrepeat_parse, hread_year, hread_month, hread_day, hread_hour, hread_minute, htitle,
    if_neg hchecks, hrepeat_day, hdone.2]

theorem newline_notMem_reminderLine (h : reminder.Valid) : 10 ∉ reminderLine reminder := by
  have htitle : 10 ∉ reminder.title := (titleValid_iff.mp h.title).notMem (by decide)
  have hcode : (10 : UInt8) ≠ repeatCode reminder.repeats := by cases reminder.repeats <;> decide
  have hflag : (10 : UInt8) ≠ if reminder.done then 49 else 48 := by cases reminder.done <;> decide
  have hmark : (10 : UInt8) ∉ ascii "R2|" := by decide
  simp [reminderLine, newline_notMem_padded, htitle, hcode, hflag, hmark]

theorem length_reminderLine (h : reminder.Valid) : (reminderLine reminder ++ [10]).length ≤ 68 := by
  obtain ⟨hyear, hmonth, hday, hhour, hminute, hrepeat⟩ := h.small
  have htitle := (titleValid_iff.mp h.title).short
  have hascii : (ascii "R2|").length = 3 := rfl
  simp only [reminderLine, List.length_append, List.length_cons, List.length_nil, hascii, length_padded hyear (by decide), length_padded hmonth (by decide),
    length_padded hday (by decide), length_padded hhour (by decide), length_padded hminute (by decide), length_padded hrepeat (by decide)]
  omega

def reminderFormat : LineFormat Reminder where
  put := putReminderLine
  parse := parseReminderLine
  Valid := Reminder.Valid
  line := reminderLine
  reset reminder := { reminder with notified := false }
  buffer := 2304
  count := 24
  size := 68
  puts _ h := puts_reminderLine h
  parses _ h := parseReminderLine_reminderLine h
  line_ne_nil _ _ := by simp [reminderLine, ascii]
  newline_notMem _ h := newline_notMem_reminderLine h
  length_line _ h := length_reminderLine h
  fits := by decide

theorem remindersLoad_remindersSave {σ : Type} {S : Storage σ} {desk desk' : Desk σ} (hS : S.Faithful) {reminders : List Reminder}
    (hcount : reminders.length ≤ 24) (hvalid : ∀ reminder ∈ reminders, reminder.Valid) (h : remindersSave S reminders desk = (true, desk')) :
    (remindersLoad S desk').1 = reminders.map fun reminder => { reminder with notified := false } := by
  have hput : reminders.foldlM putReminderLine [] = some (reminderFormat.text reminders) := reminderFormat.foldlM_put hcount hvalid
  have hlength : (reminderFormat.text reminders).length + 3 < 2304 := reminderFormat.length_text hcount hvalid
  have hrecords : readRecords 24 parseReminderLine (Text.lines 10 (reminderFormat.text reminders)) [] =
      reminders.map fun reminder => { reminder with notified := false } := reminderFormat.readRecords_text hcount hvalid
  rw [remindersSave] at h
  cases hensure : utilitiesEnsureStorage S desk with
  | mk ready desk1 =>
    rw [hensure] at h
    cases ready with
    | false => cases h
    | true =>
      rw [hput] at h
      dsimp only at h
      have hkeeps : (writeFile S remindersPath (reminderFormat.text reminders) desk1).2.utilitiesReady = desk1.utilitiesReady := rfl
      rw [h] at hkeeps
      have hready : desk'.utilitiesReady = true := hkeeps.trans (utilitiesEnsureStorage_ready hensure)
      have hread : S.read desk'.disk remindersPath 2303 = some (reminderFormat.text reminders) := read_writeFile hS h (by omega)
      rw [remindersLoad, utilitiesEnsureStorage_of_ready hready]
      dsimp only
      rw [hread]
      exact hrecords

end

/-! ### The alarms -/

section
variable {alarm : Alarm}

/-- What the parser of the lines checks. -/
structure Alarm.Valid (alarm : Alarm) : Prop where
  hour : alarm.hour ≤ 23
  minute : alarm.minute ≤ 59
  dayMask : alarm.dayMask ≤ 127
  title : titleValid alarm.title 25 = true

/-- The line of an alarm. -/
def alarmLine (alarm : Alarm) : Bytes :=
  ascii "A1|" ++ (padded 2 alarm.hour ++ ascii ":") ++ (padded 2 alarm.minute ++ [124, if alarm.enabled then 49 else 48, 124]) ++
    (padded 3 alarm.dayMask ++ ascii "|") ++ alarm.title

theorem Alarm.Valid.small (h : alarm.Valid) : alarm.hour < 10 ^ 2 ∧ alarm.minute < 10 ^ 2 ∧ alarm.dayMask < 10 ^ 3 := by
  obtain ⟨hhour, hminute, hmask, -⟩ := h
  omega

theorem puts_alarmLine (h : alarm.Valid) : Puts 768 (fun data => putAlarmLine data alarm) (alarmLine alarm ++ [10]) := by
  obtain ⟨hhour, hminute, hmask⟩ := h.small
  have htitle : ¬(!titleValid alarm.title 25) = true := by
    rw [h.title]
    exact Bool.false_ne_true
  have hthree (b c d : UInt8) : Puts 768 (fun data => putBytes 768 3 data [b, c, d]) [b, c, d] := puts_bytes (show 3 ≤ 3 + 3 by decide)
  simp only [putAlarmLine, if_neg htitle]
  refine Puts.congr (puts_text.bind ((puts_text.uint (by omega) (by decide)).bind (((hthree _ _ _).uint (by omega) (by decide)).bind
    ((puts_text.uint (by omega) (by decide)).bind (puts_text.bind puts_text))))) ?_
  simp only [alarmLine, List.append_assoc]
  rfl

theorem parseAlarmLine_alarmLine (h : alarm.Valid) : parseAlarmLine (alarmLine alarm) = some { alarm with lastFiredStamp := neverFired } := by
  obtain ⟨hhour, hminute, hmask⟩ := h.small
  obtain ⟨h1, h2, hh⟩ := List.length_eq_two.mp (length_padded hhour (by decide))
  obtain ⟨n1, n2, hn⟩ := List.length_eq_two.mp (length_padded hminute (by decide))
  obtain ⟨m1, m2, m3, hm⟩ := List.length_eq_three.mp (length_padded hmask (by decide))
  obtain ⟨line, hline⟩ : ∃ line, line = alarmLine alarm := ⟨_, rfl⟩
  have hexplicit : line = 65 :: 49 :: 124 :: h1 :: h2 :: 58 :: n1 :: n2 :: 124 :: (if alarm.enabled then 49 else 48) :: 124 :: m1 :: m2 :: m3 :: 124 ::
      alarm.title := by
    rw [hline, alarmLine, hh, hn, hm]
    rfl
  have hlength : 16 ≤ line.length ∧ line.length ≤ 39 := by
    obtain ⟨hne, hshort, -⟩ := titleValid_iff.mp h.title
    have hpos := List.length_pos_of_ne_nil hne
    have hcount : line.length = 15 + alarm.title.length := by
      rw [hexplicit]
      simp only [List.length_cons]
      omega
    omega
  have hmarked : marked line [(0, 65), (1, 49), (2, 124), (5, 58), (8, 124), (10, 124), (14, 124)] = true := by
    rw [hexplicit]
    rfl
  have hread_hour : parseDigitsAt line 3 2 = some alarm.hour := parseDigitsAt_padded (by rw [hexplicit, hh]; rfl) hhour (by decide)
  have hread_minute : parseDigitsAt line 6 2 = some alarm.minute := parseDigitsAt_padded (by rw [hexplicit, hn]; rfl) hminute (by decide)
  have hread_mask : parseDigitsAt line 11 3 = some alarm.dayMask := parseDigitsAt_padded (by rw [hexplicit, hm]; rfl) hmask (by decide)
  have hflag : (line)[9]? = some (if alarm.enabled then 49 else 48) := by
    rw [hexplicit]
    rfl
  have htitle : line.drop 15 = alarm.title := by
    rw [hexplicit]
    rfl
  have hshape : ¬(line.length < 16 ∨ line.length > 39 ∨
      (!marked line [(0, 65), (1, 49), (2, 124), (5, 58), (8, 124), (10, 124), (14, 124)]) = true) := by
    rw [hmarked]
    rintro (hbad | hbad | hbad)
    all_goals first | omega | cases hbad
  have henabled : ¬((if alarm.enabled then (49 : UInt8) else 48) ≠ 48 ∧ (if alarm.enabled then (49 : UInt8) else 48) ≠ 49) ∧
      decide ((if alarm.enabled then (49 : UInt8) else 48) = 49) = alarm.enabled := by
    cases alarm.enabled <;> decide
  have hchecks : ¬(((if alarm.enabled then (49 : UInt8) else 48) ≠ 48 ∧ (if alarm.enabled then (49 : UInt8) else 48) ≠ 49) ∨
      alarm.hour > 23 ∨ alarm.minute > 59 ∨ alarm.dayMask > 127 ∨ (!titleValid alarm.title 25) = true) := by
    obtain ⟨hhour, hminute, hmask, htitle⟩ := h
    rw [htitle]
    rintro (hbad | hbad | hbad | hbad | hbad)
    · exact henabled.1 hbad
    all_goals first | omega | cases hbad
  rw [← hline, parseAlarmLine, if_neg hshape]
  simp only [Option.bind_eq_bind, Option.bind_some, hflag, hread_hour, hread_minute, hread_mask, htitle, if_neg hchecks, henabled.2]

theorem newline_notMem_alarmLine (h : alarm.Valid) : 10 ∉ alarmLine alarm := by
  have htitle : 10 ∉ alarm.title := (titleValid_iff.mp h.title).notMem (by decide)
  have hflag : (10 : UInt8) ≠ if alarm.enabled then 49 else 48 := by cases alarm.enabled <;> decide
  have hmarks : (10 : UInt8) ∉ ascii "A1|" ∧ (10 : UInt8) ∉ ascii ":" ∧ (10 : UInt8) ∉ ascii "|" := by decide
  simp [alarmLine, newline_notMem_padded, htitle, hflag, hmarks]

theorem length_alarmLine (h : alarm.Valid) : (alarmLine alarm ++ [10]).length ≤ 40 := by
  obtain ⟨hhour, hminute, hmask⟩ := h.small
  have htitle := (titleValid_iff.mp h.title).short
  have hascii : (ascii "A1|").length = 3 ∧ (ascii ":").length = 1 ∧ (ascii "|").length = 1 := ⟨rfl, rfl, rfl⟩
  simp only [alarmLine, List.length_append, List.length_cons, List.length_nil, hascii, length_padded hhour (by decide), length_padded hminute (by decide),
    length_padded hmask (by decide)]
  omega

def alarmFormat : LineFormat Alarm where
  put := putAlarmLine
  parse := parseAlarmLine
  Valid := Alarm.Valid
  line := alarmLine
  reset alarm := { alarm with lastFiredStamp := neverFired }
  buffer := 768
  count := 8
  size := 40
  puts _ h := puts_alarmLine h
  parses _ h := parseAlarmLine_alarmLine h
  line_ne_nil _ _ := by simp [alarmLine, ascii]
  newline_notMem _ h := newline_notMem_alarmLine h
  length_line _ h := length_alarmLine h
  fits := by decide

theorem alarmsLoad_alarmsSave {σ : Type} {S : Storage σ} {desk desk' : Desk σ} (hS : S.Faithful) {alarms : List Alarm}
    (hcount : alarms.length ≤ 8) (hvalid : ∀ alarm ∈ alarms, alarm.Valid) (h : alarmsSave S alarms desk = (true, desk')) :
    alarmsLoad S desk' = alarms.map fun alarm => { alarm with lastFiredStamp := neverFired } := by
  have hput : alarms.foldlM putAlarmLine [] = some (alarmFormat.text alarms) := alarmFormat.foldlM_put hcount hvalid
  have hlength : (alarmFormat.text alarms).length + 3 < 768 := alarmFormat.length_text hcount hvalid
  have hrecords : readRecords 8 parseAlarmLine (Text.lines 10 (alarmFormat.text alarms)) [] =
      alarms.map fun alarm => { alarm with lastFiredStamp := neverFired } := alarmFormat.readRecords_text hcount hvalid
  rw [alarmsSave, hput] at h
  dsimp only at h
  have hread : S.read desk'.disk alarmsPath 767 = some (alarmFormat.text alarms) := read_writeFile hS h (by omega)
  rw [alarmsLoad, hread]
  exact hrecords

end

/-! ### All stores -/

/-- What a save has written is loaded again: the reminders without the notice, the events in the order of the calendar and otherwise as they
stood, and the alarms without the time when they fired. -/
theorem stores_round_trip {σ : Type} {S : Storage σ} (hS : S.Faithful) (desk desk' : Desk σ) :
    (∀ reminders : List Reminder, reminders.length ≤ 24 → (∀ reminder ∈ reminders, reminder.Valid) → remindersSave S reminders desk = (true, desk') →
      (remindersLoad S desk').1 = reminders.map fun reminder => { reminder with notified := false }) ∧
    (∀ (events : List CalendarEvent) (today today' : Date), events.length ≤ 16 → (∀ event ∈ events, event.Valid) →
      calendarSave S today events desk = (true, desk') → (calendarLoad S today' desk').1.Perm events ∧ InOrder (calendarLoad S today' desk').1 ∧
        ∀ part : List CalendarEvent, part.Sublist events → InOrder part → part.Sublist (calendarLoad S today' desk').1) ∧
    (∀ alarms : List Alarm, alarms.length ≤ 8 → (∀ alarm ∈ alarms, alarm.Valid) → alarmsSave S alarms desk = (true, desk') →
      alarmsLoad S desk' = alarms.map fun alarm => { alarm with lastFiredStamp := neverFired }) := by
  refine ⟨fun reminders hcount hvalid h => remindersLoad_remindersSave hS hcount hvalid h, fun events today today' hcount hvalid h => ?_,
    fun alarms hcount hvalid h => alarmsLoad_alarmsSave hS hcount hvalid h⟩
  rw [calendarLoad_calendarSave hS hcount hvalid h]
  exact sortEvents_sorts events

/-- A storage that keeps each file. -/
def memory : Storage (String → Option Bytes) where
  directoryExists _ _ := true
  makeDirectory disk _ := disk
  write disk path data := (true, fun path' => if path' = path then some data else disk path')
  read disk path capacity := (disk path).filter fun data => data.length ≤ capacity

theorem memory_faithful : memory.Faithful where
  read_written disk path data capacity _ hcapacity := by simp [memory, hcapacity]
  read_other disk path path' data capacity hne := by simp [memory, hne]

theorem stores_round_trip_sample :
    let desk : Desk (String → Option Bytes) := { disk := fun _ => none, storageReady := false, utilitiesReady := false }
    (remindersLoad memory (remindersSave memory [noon] desk).2).1 = [noon] := by
  intro desk
  refine (stores_round_trip memory_faithful desk _).1 [noon] (by decide) ?_ (Prod.ext (by decide +kernel) rfl)
  intro reminder hreminder
  obtain rfl := List.mem_singleton.mp hreminder
  exact noon_valid

end ZenovOS.Productivity

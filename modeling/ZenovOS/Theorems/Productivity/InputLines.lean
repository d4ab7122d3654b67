import ZenovOS.Theorems.Productivity.Stores

/-! An event or an alarm that is edited without a change stays as it is, where its title has no blank at either end and the days of the alarm
have a name. -/

namespace ZenovOS.Productivity
open Bytes Decimal

/-! ### Blanks -/

section
variable {text front back : Bytes}

theorem trim_idem_iff : trim text = text ↔ Text.Trimmed blank text :=
  ⟨fun h => h ▸ Text.trimmed_trim text, fun h => h.trim_eq⟩

theorem trimmed_append (hfront : Text.Trimmed blank front) (hne : front ≠ []) {c : UInt8} (hlast : back.getLast? = some c) (hc : blank c = false) :
    Text.Trimmed blank (front ++ back) := by
  obtain ⟨d, front, rfl⟩ := List.exists_cons_of_ne_nil hne
  refine ⟨fun a ha => hfront.first a ha, fun a ha => ?_⟩
  have hne' : back ≠ [] := by
    rintro rfl
    cases hlast
  rw [List.getLast?_append_of_ne_nil _ hne', hlast] at ha
  exact Option.some.inj ha ▸ hc

theorem blank_digit {c : UInt8} (hc : IsDigit c) : blank c = false := by
  have hne : c ≠ 32 ∧ c ≠ 9 := by
    constructor <;> rintro rfl <;> exact absurd hc.1 (by decide)
  simp [blank, hne]

theorem exists_last_digit {digits : Bytes} (h : ∀ c ∈ digits, IsDigit c) (hne : digits ≠ []) : ∃ rest c, digits = rest ++ [c] ∧ IsDigit c := by
  have hsplit := List.dropLast_append_getLast hne
  exact ⟨_, _, hsplit.symm, h _ (List.getLast_mem hne)⟩

theorem trimmed_of_digits {digits : Bytes} (h : ∀ c ∈ digits, IsDigit c) : Text.Trimmed blank digits :=
  ⟨fun a ha => blank_digit (h a (List.mem_of_head? ha)), fun a ha => blank_digit (h a (List.mem_of_getLast? ha))⟩

/-! ### Marks and suffixes -/

theorem foldl_last {P : Nat → Prop} [DecidablePred P] {n k : Nat} (hk : k < n) (hP : P k) (hlast : ∀ i, k < i → i < n → ¬P i) (found : Option Nat) :
    (List.range n).foldl (fun found i => if P i then some i else found) found = some k := by
  induction n with
  | zero => omega
  | succ n ih =>
    rw [List.range_succ, List.foldl_append]
    by_cases hkn : k = n
    · subst hkn
      exact if_pos hP
    · rw [ih (by omega) fun i hi hin => hlast i hi (by omega)]
      exact if_neg (hlast n (by omega) (by omega))

theorem lastMark_append {mark : UInt8} (hback : mark ∉ back) : lastMark mark (front ++ 32 :: mark :: back) = some front.length := by
  refine foldl_last ?_ ?_ (fun i hi _ => ?_) none
  · rw [List.length_append, List.length_cons, List.length_cons]
    omega
  · refine ⟨?_, ?_⟩
    · rw [List.getElem?_append_right (Nat.le_refl _), Nat.sub_self]
      rfl
    · rw [List.getElem?_append_right (by omega), Nat.add_sub_cancel_left]
      rfl
  · rintro ⟨-, hmark⟩
    obtain ⟨j, rfl⟩ := Nat.exists_eq_add_of_lt hi
    rw [List.getElem?_append_right (by omega), show front.length + j + 1 + 1 - front.length = j + 1 + 1 by omega, List.getElem?_cons_succ,
      List.getElem?_cons_succ] at hmark
    exact hback (List.mem_of_getElem? hmark)

theorem hasSuffix_append {suffix : Bytes} (h : suffix.length ≤ back.length) : hasSuffix (front ++ back) suffix = hasSuffix back suffix := by
  have hdrop : (front ++ back).drop ((front ++ back).length - suffix.length) = back.drop (back.length - suffix.length) := by
    rw [List.length_append, show front.length + back.length - suffix.length = front.length + (back.length - suffix.length) by omega, List.drop_append]
    simp
  have hlong : ¬suffix.length > (front ++ back).length := by
    rw [List.length_append]
    omega
  rw [hasSuffix, hasSuffix, if_neg hlong, if_neg (not_lt.mpr h), hdrop]

theorem hasSuffix_last {suffix : Bytes} {c d : UInt8} (h : asciiEqualCi c d = false) : hasSuffix (front ++ [c]) (suffix ++ [d]) = false := by
  rw [hasSuffix]
  split
  · rfl
  · next hlong =>
    rw [List.length_append, List.length_append] at hlong ⊢
    have hdrop : (front ++ [c]).drop (front.length + [c].length - (suffix.length + [d].length)) = front.drop (front.length - suffix.length) ++ [c] := by
      rw [List.drop_append_of_le_length (by simp)]
      simp
    have hlength : (front.drop (front.length - suffix.length)).length = suffix.length := by
      rw [List.length_drop]
      simp at hlong
      omega
    rw [hdrop, List.zipWith_append hlength, List.all_append]
    simp [h]

theorem cutSuffix_of_not {α : Type} {value : α} {suffix : Bytes} {table : List (Bytes × α)} {default : α} (h : hasSuffix text suffix = false) :
    cutSuffix text default ((suffix, value) :: table) = cutSuffix text default table := by
  rw [cutSuffix, h]
  rfl

theorem cutSuffix_append {α : Type} {value : α} {table : List (Bytes × α)} {default : α} (h : hasSuffix back back = true) :
    cutSuffix (front ++ back) default ((back, value) :: table) = (trim front, value) := by
  rw [cutSuffix, hasSuffix_append (Nat.le_refl _), if_pos h, List.length_append, Nat.add_sub_cancel, List.take_left]

theorem cutSuffix_trimmed {α : Type} (default : α) (table : List (Bytes × α)) (h : Text.Trimmed blank text) :
    Text.Trimmed blank (cutSuffix text default table).1 := by
  induction table with
  | nil => exact h
  | cons entry table ih =>
    rw [cutSuffix]
    split
    · exact Text.trimmed_trim _
    · exact ih

theorem cutDuration_trimmed {duration : Nat} (h : Text.Trimmed blank text) (hcut : cutDuration text = some (duration, front)) : Text.Trimmed blank front := by
  rw [cutDuration] at hcut
  split at hcut
  · simp only [Option.some.injEq, Prod.mk.injEq] at hcut
    exact hcut.2 ▸ h
  · simp only [Option.bind_eq_bind, Option.bind_eq_some_iff] at hcut
    obtain ⟨⟨duration', rest⟩, -, hcut⟩ := hcut
    split at hcut
    · cases hcut
    · simp only [Option.some.injEq, Prod.mk.injEq] at hcut
      exact hcut.2 ▸ Text.trimmed_trim _

theorem cutTime_trimmed {hour minute : Nat} (h : Text.Trimmed blank text) (hcut : cutTime text = some (hour, minute, front)) : Text.Trimmed blank front := by
  rw [cutTime] at hcut
  split at hcut
  · simp only [Option.some.injEq, Prod.mk.injEq] at hcut
    exact hcut.2.2 ▸ h
  · dsimp only at hcut
    split at hcut
    · cases hcut
    · simp only [Option.bind_eq_bind, Option.bind_eq_some_iff] at hcut
      obtain ⟨hour', -, minute', -, hcut⟩ := hcut
      split at hcut
      · cases hcut
      · simp only [Option.some.injEq, Prod.mk.injEq] at hcut
        exact hcut.2.2 ▸ Text.trimmed_trim _

/-! ### Durations -/

theorem le_number (value : Nat) (digits : Bytes) : value ≤ number value digits := by
  induction digits generalizing value with
  | nil => exact Nat.le_refl _
  | cons c digits ih => exact (by omega : value ≤ value * 10 + (c.toNat - 48)).trans (ih _)

theorem readDuration_digits {digits : Bytes} (hdigits : ∀ c ∈ digits, IsDigit c) {value : Nat} (h : number value digits ≤ 1440) :
    readDuration value digits = some (number value digits, []) := by
  induction digits generalizing value with
  | nil => rfl
  | cons c digits ih =>
    have hvalue := (le_number value (c :: digits)).trans h
    have hdigit : c ≥ 48 ∧ c ≤ 57 := hdigits c (List.mem_cons_self ..)
    rw [readDuration, if_pos hdigit, if_neg (by omega), ih (fun d hd => hdigits d (List.mem_cons_of_mem _ hd)) h]
    rfl

end

/-! ### Events -/

section
variable {event : CalendarEvent} {selected : Date}

/-- What the input line of an event holds, but for the repeat. -/
def eventText (event : CalendarEvent) : Bytes :=
  (event.title ++ 32 :: 64 :: (padded 2 event.hour ++ 58 :: padded 2 event.minute)) ++ 32 :: 43 :: decimal event.durationMinutes

theorem length_eventText (h : event.Valid) : (eventText event ++ repeatText event.repeats).length < 80 := by
  obtain ⟨-, -, -, hhour, hminute, hduration, -⟩ := h.small
  have htitle := (titleValid_iff.mp h.title).short
  have hdigits := length_decimal_le hduration (by decide)
  have hrepeat : (repeatText event.repeats).length ≤ 9 := by cases event.repeats <;> decide
  simp only [eventText, List.length_append, List.length_cons, length_padded hhour (by decide), length_padded hminute (by decide)]
  omega

theorem formatCalendarInput_eq (h : event.Valid) : formatCalendarInput event = eventText event ++ repeatText event.repeats := by
  obtain ⟨-, -, -, hhour, hminute, hduration, -⟩ := h.small
  have hlength := length_eventText h
  have htext : event.title ++ ascii " @" ++ padded 2 event.hour ++ ascii ":" ++ padded 2 event.minute ++ ascii " +" ++
      padded 0 event.durationMinutes = eventText event := by
    have hmarks : ascii " @" = [32, 64] ∧ ascii ":" = [58] ∧ ascii " +" = [32, 43] := by decide
    simp only [eventText, padded_zero, hmarks, List.append_assoc, List.cons_append, List.nil_append]
  have hsteps : Adds 80 _ _ := ((((((adds_text event.title).trans (adds_text (ascii " @"))).trans (adds_uint event.hour 2 (by omega) (by decide))).trans
    (adds_text (ascii ":"))).trans (adds_uint event.minute 2 (by omega) (by decide))).trans (adds_text (ascii " +"))).trans
    (adds_uint event.durationMinutes 0 (by omega) (by decide))
  rw [htext] at hsteps
  have hrun := (hsteps.trans (adds_text (repeatText event.repeats))) [] (by rwa [List.length_nil, Nat.zero_add])
  rw [List.nil_append] at hrun
  rw [formatCalendarInput]
  exact hrun

/-- The title and the time. -/
def timeText (event : CalendarEvent) : Bytes := event.title ++ 32 :: 64 :: (padded 2 event.hour ++ 58 :: padded 2 event.minute)

theorem trimmed_timeText (h : event.Valid) (htitle : Text.Trimmed blank event.title) : Text.Trimmed blank (timeText event) := by
  obtain ⟨-, -, -, -, hminute, -, -⟩ := h.small
  have hne : padded 2 event.minute ≠ [] := List.ne_nil_of_length_pos (by rw [length_padded hminute (by decide)]; decide)
  obtain ⟨rest, c, hlast, hc⟩ := exists_last_digit (isDigit_padded 2 event.minute) hne
  have hsplit : 32 :: 64 :: (padded 2 event.hour ++ 58 :: padded 2 event.minute) = (32 :: 64 :: (padded 2 event.hour ++ 58 :: rest)) ++ [c] := by
    simp [hlast]
  exact trimmed_append htitle (titleValid_iff.mp h.title).nonempty (by rw [hsplit, List.getLast?_concat]) (blank_digit hc)

theorem eventText_ne_nil (event : CalendarEvent) : eventText event ≠ [] := List.append_ne_nil_of_right_ne_nil _ (List.cons_ne_nil _ _)

theorem exists_last_eventText (event : CalendarEvent) : ∃ front c, eventText event = front ++ [c] ∧ IsDigit c := by
  obtain ⟨rest, c, hlast, hc⟩ := exists_last_digit (isDigit_decimal event.durationMinutes) (decimal_ne_nil _)
  exact ⟨timeText event ++ 32 :: 43 :: rest, c, by simp [eventText, timeText, hlast], hc⟩

theorem trimmed_eventText (h : event.Valid) (htitle : Text.Trimmed blank event.title) : Text.Trimmed blank (eventText event) := by
  have hne : timeText event ≠ [] := List.append_ne_nil_of_left_ne_nil (titleValid_iff.mp h.title).nonempty _
  obtain ⟨rest, c, hlast, hc⟩ := exists_last_digit (isDigit_decimal event.durationMinutes) (decimal_ne_nil _)
  have hsplit : 32 :: 43 :: decimal event.durationMinutes = (32 :: 43 :: rest) ++ [c] := by simp [hlast]
  exact trimmed_append (trimmed_timeText h htitle) hne (by rw [hsplit, List.getLast?_concat]) (blank_digit hc)

theorem asciiEqualCi_digit {c d : UInt8} (hc : IsDigit c) (hd : d = 121 ∨ d = 101 ∨ d = 115) : asciiEqualCi c d = false := by
  have hlow : ¬(c ≥ 65 ∧ c ≤ 90) := fun h => absurd (UInt8.le_trans h.1 hc.2) (by decide)
  have hne : c ≠ d := by
    rintro rfl
    rcases hd with rfl | rfl | rfl <;> exact absurd hc.2 (by decide)
  have hlower : asciiLower d = d := by rcases hd with rfl | rfl | rfl <;> rfl
  rw [asciiEqualCi, asciiLower, if_neg hlow, hlower]
  exact decide_eq_false hne

theorem cutSuffix_eventText (h : event.Valid) (htitle : Text.Trimmed blank event.title) :
    cutSuffix (eventText event ++ repeatText event.repeats) .none repeatSuffixes = (eventText event, event.repeats) := by
  have htrim : trim (eventText event) = eventText event := (trimmed_eventText h htitle).trim_eq
  unfold repeatSuffixes
  cases event.repeats with
  | none =>
    obtain ⟨front, c, hfront, hdigit⟩ := exists_last_eventText event
    have hnot (suffix : Bytes) {d : UInt8} (hd : d = 121 ∨ d = 101 ∨ d = 115) : hasSuffix (eventText event) (suffix ++ [d]) = false := by
      rw [hfront]
      exact hasSuffix_last (asciiEqualCi_digit hdigit hd)
    have hdaily : hasSuffix (eventText event) (ascii " !daily") = false := hnot (ascii " !dail") (Or.inl rfl)
    have hweekly : hasSuffix (eventText event) (ascii " !weekly") = false := hnot (ascii " !weekl") (Or.inl rfl)
    have hmonthly : hasSuffix (eventText event) (ascii " !monthly") = false := hnot (ascii " !monthl") (Or.inl rfl)
    have honce : hasSuffix (eventText event) (ascii " !once") = false := hnot (ascii " !onc") (Or.inr (Or.inl rfl))
    rw [repeatText, List.append_nil, cutSuffix_of_not hdaily, cutSuffix_of_not hweekly, cutSuffix_of_not hmonthly, cutSuffix_of_not honce, cutSuffix]
  | daily => rw [repeatText, cutSuffix_append (by decide), htrim]
  | weekly => rw [repeatText, cutSuffix_of_not (by rw [hasSuffix_append (by decide)]; decide), cutSuffix_append (by decide), htrim]
  | monthly =>
    rw [repeatText, cutSuffix_of_not (by rw [hasSuffix_append (by decide)]; decide), cutSuffix_of_not (by rw [hasSuffix_append (by decide)]; decide),
      cutSuffix_append (by decide), htrim]

theorem cutDuration_eventText (h : event.Valid) (htitle : Text.Trimmed blank event.title) :
    cutDuration (eventText event) = some (event.durationMinutes, timeText event) := by
  have hmark : lastMark 43 (eventText event) = some (timeText event).length :=
    lastMark_append fun hmem => absurd (isDigit_decimal event.durationMinutes 43 hmem).1 (by decide)
  have hdigits : (eventText event).drop ((timeText event).length + 2) = decimal event.durationMinutes := List.drop_length_add_append 2
  have hfront : (eventText event).take (timeText event).length = timeText event := List.take_left ..
  have hread : readDuration 0 (decimal event.durationMinutes) = some (event.durationMinutes, []) := by
    rw [readDuration_digits (isDigit_decimal _) (by rw [number_decimal]; exact h.duration.2), number_decimal]
  have hchecks : ¬(decimal event.durationMinutes = [] ∨ ([] : Bytes) ≠ [] ∨ event.durationMinutes < 1 ∨ event.durationMinutes > 1440) := by
    have hduration := h.duration
    rintro (hbad | hbad | hbad | hbad)
    · exact decimal_ne_nil _ hbad
    · exact hbad rfl
    all_goals omega
  have htrim : trim (timeText event) = timeText event := (trimmed_timeText h htitle).trim_eq
  rw [cutDuration, hmark]
  simp only [hdigits, hread, hfront, Option.bind_eq_bind, Option.bind_some, if_neg hchecks, htrim]

theorem cutTime_timeText (h : event.Valid) (htitle : Text.Trimmed blank event.title) :
    cutTime (timeText event) = some (event.hour, event.minute, event.title) := by
  obtain ⟨-, -, -, hhour, hminute, -, -⟩ := h.small
  have hmark : lastMark 64 (timeText event) = some event.title.length := by
    refine lastMark_append fun hmem => ?_
    rcases List.mem_append.mp hmem with hmem | hmem
    · exact absurd (isDigit_padded 2 event.hour 64 hmem).2 (by decide)
    · rcases List.mem_cons.mp hmem with hmem | hmem
      · exact absurd hmem (by decide)
      · exact absurd (isDigit_padded 2 event.minute 64 hmem).2 (by decide)
  have hback : (timeText event).drop (event.title.length + 2) = padded 2 event.hour ++ 58 :: padded 2 event.minute := List.drop_length_add_append 2
  have hfront : (timeText event).take event.title.length = event.title := List.take_left ..
  have hlength : ¬((timeText event).length - (event.title.length + 2) ≠ 5 ∨ (timeText event)[event.title.length + 2 + 2]? ≠ some 58) := by
    rw [← List.length_drop, hback, ← List.getElem?_drop, hback, List.length_append, List.length_cons, length_padded hhour (by decide),
      length_padded hminute (by decide), List.getElem?_append_right (by rw [length_padded hhour (by decide)]), length_padded hhour (by decide)]
    simp
  have hread_hour : parseDigitsAt (timeText event) (event.title.length + 2) 2 = some event.hour := by
    refine parseDigitsAt_padded ?_ hhour (by decide)
    rw [slice, hback, List.take_left' (length_padded hhour (by decide))]
  have hafter : (timeText event).drop (event.title.length + 2 + 3) = padded 2 event.minute := by
    have hsplit : padded 2 event.hour ++ 58 :: padded 2 event.minute = (padded 2 event.hour ++ [58]) ++ padded 2 event.minute := by simp
    rw [← List.drop_drop, hback, hsplit, List.drop_left' (by rw [List.length_append, length_padded hhour (by decide), List.length_singleton])]
  have hread_minute : parseDigitsAt (timeText event) (event.title.length + 2 + 3) 2 = some event.minute := by
    refine parseDigitsAt_padded ?_ hminute (by decide)
    rw [slice, hafter, List.take_of_length_le (length_padded hminute (by decide)).le]
  have hchecks : ¬(event.hour > 23 ∨ event.minute > 59) := by
    obtain ⟨-, hhour, hminute, -⟩ := h
    omega
  have htrim : trim event.title = event.title := htitle.trim_eq
  rw [cutTime, hmark]
  simp only [if_neg hlength, hread_hour, hread_minute, hfront, Option.bind_eq_bind, Option.bind_some, if_neg hchecks, htrim]

theorem parseCalendarInput_format (h : event.Valid) (htitle : Text.Trimmed blank event.title) (selected : Date) :
    parseCalendarInput selected (formatCalendarInput event) =
      some { selected with
        hour := event.hour, minute := event.minute, durationMinutes := event.durationMinutes, repeats := event.repeats, repeatDay := selected.day,
        title := event.title } := by
  have hlength := length_eventText h
  have hne : eventText event ++ repeatText event.repeats ≠ [] := List.append_ne_nil_of_left_ne_nil (eventText_ne_nil event) _
  have htrim : trim (eventText event ++ repeatText event.repeats) = eventText event ++ repeatText event.repeats := by
    have hevent := trimmed_eventText h htitle
    cases event.repeats with
    | none =>
      rw [repeatText, List.append_nil]
      exact hevent.trim_eq
    | daily => exact (trimmed_append hevent (eventText_ne_nil event) (c := 121) (by decide) rfl).trim_eq
    | weekly => exact (trimmed_append hevent (eventText_ne_nil event) (c := 121) (by decide) rfl).trim_eq
    | monthly => exact (trimmed_append hevent (eventText_ne_nil event) (c := 121) (by decide) rfl).trim_eq
  have hinput : ¬(eventText event ++ repeatText event.repeats = [] ∨ (eventText event ++ repeatText event.repeats).length ≥ 80 ∨
      trim (eventText event ++ repeatText event.repeats) = []) := by
    rw [htrim]
    rintro (hbad | hbad | hbad)
    · exact hne hbad
    · omega
    · exact hne hbad
  have hvalid : ¬(!titleValid event.title 33) = true := by
    rw [h.title]
    exact Bool.false_ne_true
  rw [formatCalendarInput_eq h, parseCalendarInput, if_neg hinput, htrim, cutSuffix_eventText h htitle]
  simp only [cutDuration_eventText h htitle, cutTime_timeText h htitle, Option.bind_eq_bind, Option.bind_some, if_neg hvalid]

theorem parseCalendarInput_trimmed {input : Bytes} (h : parseCalendarInput selected input = some event) : Text.Trimmed blank event.title := by
  rw [parseCalendarInput] at h
  split at h
  · cases h
  · simp only [Option.bind_eq_bind, Option.bind_eq_some_iff] at h
    obtain ⟨⟨duration, text⟩, hduration, ⟨hour, minute, title⟩, htime, h⟩ := h
    split at h
    · cases h
    · obtain rfl := Option.some.inj h
      exact cutTime_trimmed (cutDuration_trimmed (cutSuffix_trimmed _ _ (Text.trimmed_trim input)) hduration) htime

/-- Editing the event without a change keeps its title, time, duration and repeat. -/
def CalendarEvent.EditKeeps (event : CalendarEvent) (selected : Date) : Prop :=
  ∃ edited, parseCalendarInput selected (formatCalendarInput event) = some edited ∧ edited.title = event.title ∧ edited.hour = event.hour ∧
    edited.minute = event.minute ∧ edited.durationMinutes = event.durationMinutes ∧ edited.repeats = event.repeats

theorem event_editKeeps_iff (h : event.Valid) : event.EditKeeps selected ↔ trim event.title = event.title := by
  rw [trim_idem_iff]
  constructor
  · rintro ⟨edited, hparse, htitle, -⟩
    exact htitle ▸ parseCalendarInput_trimmed hparse
  · intro htitle
    exact ⟨_, parseCalendarInput_format h htitle selected, rfl, rfl, rfl, rfl, rfl⟩

end

/-! ### Alarms -/

section
variable {alarm : Alarm}

theorem parseAlarmLine_valid {line : Bytes} (h : parseAlarmLine line = some alarm) : alarm.Valid := by
  rw [parseAlarmLine] at h
  split at h
  · cases h
  · simp only [Option.bind_eq_bind, Option.bind_eq_some_iff] at h
    obtain ⟨flag, -, hour, -, minute, -, dayMask, -, h⟩ := h
    split at h
    · cases h
    · next hchecks =>
      simp only [not_or, not_lt, Bool.not_eq_true', Bool.not_eq_false] at hchecks
      obtain ⟨-, hhour, hminute, hmask, htitle⟩ := hchecks
      obtain rfl := Option.some.inj h
      exact ⟨hhour, hminute, hmask, htitle⟩

/-- What the input line of an alarm holds, but for the days. -/
def alarmText (alarm : Alarm) : Bytes := padded 2 alarm.hour ++ 58 :: (padded 2 alarm.minute ++ 32 :: alarm.title)

theorem length_alarmText (h : alarm.Valid) : (alarmText alarm ++ maskText alarm.dayMask).length < 64 ∧ 7 ≤ (alarmText alarm).length := by
  obtain ⟨hhour, hminute, -⟩ := h.small
  obtain ⟨hne, hshort, -⟩ := titleValid_iff.mp h.title
  have hpos := List.length_pos_of_ne_nil hne
  have hmask : (maskText alarm.dayMask).length ≤ 10 := by
    rw [maskText]
    split
    · decide
    · split
      · decide
      · split <;> decide
  simp only [alarmText, List.length_append, List.length_cons, length_padded hhour (by decide), length_padded hminute (by decide)]
  omega

theorem formatAlarmInput_eq (h : alarm.Valid) : formatAlarmInput alarm = alarmText alarm ++ maskText alarm.dayMask := by
  obtain ⟨hhour, hminute, -⟩ := h.small
  obtain ⟨hlength, -⟩ := length_alarmText h
  have htext : padded 2 alarm.hour ++ ascii ":" ++ padded 2 alarm.minute ++ ascii " " ++ alarm.title = alarmText alarm := by
    have hmarks : ascii ":" = [58] ∧ ascii " " = [32] := by decide
    simp only [alarmText, hmarks, List.append_assoc, List.cons_append, List.nil_append]
  have hsteps : Adds 64 _ _ := ((((adds_uint alarm.hour 2 (by omega) (by decide)).trans (adds_text (ascii ":"))).trans
    (adds_uint alarm.minute 2 (by omega) (by decide))).trans (adds_text (ascii " "))).trans (adds_text alarm.title)
  rw [htext] at hsteps
  have hrun := (hsteps.trans (adds_text (maskText alarm.dayMask))) [] (by rwa [List.length_nil, Nat.zero_add])
  rw [List.nil_append] at hrun
  rw [formatAlarmInput]
  exact hrun

theorem trimmed_alarmText (h : alarm.Valid) (htitle : Text.Trimmed blank alarm.title) : Text.Trimmed blank (alarmText alarm) := by
  obtain ⟨hhour, -, -⟩ := h.small
  obtain ⟨htitle_ne, -, -⟩ := titleValid_iff.mp h.title
  have hne : padded 2 alarm.hour ≠ [] := List.ne_nil_of_length_pos (by rw [length_padded hhour (by decide)]; decide)
  have hlast := List.getLast?_eq_getLast_of_ne_nil htitle_ne
  have hsplit : 58 :: (padded 2 alarm.minute ++ 32 :: alarm.title) = (58 :: padded 2 alarm.minute ++ [32]) ++ alarm.title := by simp
  exact trimmed_append (trimmed_of_digits (isDigit_padded 2 alarm.hour)) hne
    (by rw [hsplit, List.getLast?_append_of_ne_nil _ htitle_ne]; exact hlast) (htitle.last _ hlast)

/-- The days that have a name. -/
def NamedDays (dayMask : Nat) : Prop := dayMask = 127 ∨ dayMask = 62 ∨ dayMask = 65 ∨ dayMask = 0

theorem cutSuffix_alarmText (htrim : trim (alarmText alarm) = alarmText alarm) (hdays : NamedDays alarm.dayMask) :
    cutSuffix (alarmText alarm ++ maskText alarm.dayMask) 127 maskSuffixes = (alarmText alarm, alarm.dayMask) := by
  have hnot (suffix : Bytes) {front : Bytes} {d : UInt8} (hd : asciiEqualCi 101 d = false) : hasSuffix (front ++ ascii " !once") (suffix ++ [d]) = false := by
    have hsplit : front ++ ascii " !once" = (front ++ ascii " !onc") ++ [101] := by simp [ascii]
    rw [hsplit]
    exact hasSuffix_last hd
  unfold maskSuffixes
  rcases hdays with hmask | hmask | hmask | hmask <;> rw [hmask]
  · rw [show maskText 127 = ascii " !daily" from rfl, cutSuffix_append (by decide), htrim]
  · rw [show maskText 62 = ascii " !weekdays" from rfl, cutSuffix_of_not (by rw [hasSuffix_append (by decide)]; decide), cutSuffix_append (by decide), htrim]
  · rw [show maskText 65 = ascii " !weekends" from rfl, cutSuffix_of_not (by rw [hasSuffix_append (by decide)]; decide),
      cutSuffix_of_not (by rw [hasSuffix_append (by decide)]; decide), cutSuffix_append (by decide), htrim]
  · have hdaily : hasSuffix (alarmText alarm ++ ascii " !once") (ascii " !daily") = false := hnot (ascii " !dail") (by decide)
    have hweekdays : hasSuffix (alarmText alarm ++ ascii " !once") (ascii " !weekdays") = false := hnot (ascii " !weekday") (by decide)
    have hweekends : hasSuffix (alarmText alarm ++ ascii " !once") (ascii " !weekends") = false := hnot (ascii " !weekend") (by decide)
    rw [show maskText 0 = ascii " !once" from rfl, cutSuffix_of_not hdaily, cutSuffix_of_not hweekdays, cutSuffix_of_not hweekends,
      cutSuffix_append (by decide), htrim]

theorem cutSuffix_value {α : Type} (text : Bytes) (default : α) (table : List (Bytes × α)) :
    (cutSuffix text default table).2 = default ∨ (cutSuffix text default table).2 ∈ table.map Prod.snd := by
  induction table with
  | nil => exact Or.inl rfl
  | cons entry table ih =>
    rw [cutSuffix, List.map_cons]
    split
    · exact Or.inr (List.mem_cons_self ..)
    · exact ih.imp id (List.mem_cons_of_mem _)

theorem parseAlarmInput_format (h : alarm.Valid) (htitle : Text.Trimmed blank alarm.title) (hdays : NamedDays alarm.dayMask) :
    parseAlarmInput (formatAlarmInput alarm) = some { alarm with enabled := true, lastFiredStamp := neverFired } := by
  obtain ⟨hhour, hminute, -⟩ := h.small
  obtain ⟨hlong, hshort⟩ := length_alarmText h
  have halarm := trimmed_alarmText h htitle
  have halarm_ne : alarmText alarm ≠ [] := List.ne_nil_of_length_pos (by omega)
  have htrim : trim (alarmText alarm ++ maskText alarm.dayMask) = alarmText alarm ++ maskText alarm.dayMask := by
    rcases hdays with hmask | hmask | hmask | hmask <;> rw [hmask]
    · exact (trimmed_append halarm halarm_ne (c := 121) (by decide) rfl).trim_eq
    · exact (trimmed_append halarm halarm_ne (c := 115) (by decide) rfl).trim_eq
    · exact (trimmed_append halarm halarm_ne (c := 115) (by decide) rfl).trim_eq
    · exact (trimmed_append halarm halarm_ne (c := 101) (by decide) rfl).trim_eq
  have hinput : ¬((alarmText alarm ++ maskText alarm.dayMask).length < 7 ∨ (alarmText alarm ++ maskText alarm.dayMask).length ≥ 64 ∨
      (trim (alarmText alarm ++ maskText alarm.dayMask)).length < 7) := by
    rw [htrim]
    have hfirst : (alarmText alarm).length ≤ (alarmText alarm ++ maskText alarm.dayMask).length := by rw [List.length_append]; exact Nat.le_add_right ..
    omega
  obtain ⟨h1, h2, hh⟩ := List.length_eq_two.mp (length_padded hhour (by decide))
  obtain ⟨n1, n2, hn⟩ := List.length_eq_two.mp (length_padded hminute (by decide))
  have hexplicit : alarmText alarm = h1 :: h2 :: 58 :: n1 :: n2 :: 32 :: alarm.title := by
    rw [alarmText, hh, hn]
    rfl
  have hshape : ¬((alarmText alarm).length < 7 ∨ (alarmText alarm)[2]? ≠ some 58 ∨ (alarmText alarm)[5]? ≠ some 32) := by
    rintro (hbad | hbad | hbad)
    · omega
    · exact hbad (by rw [hexplicit]; rfl)
    · exact hbad (by rw [hexplicit]; rfl)
  have hread_hour : parseDigitsAt (alarmText alarm) 0 2 = some alarm.hour := parseDigitsAt_padded (by rw [hexplicit, hh]; rfl) hhour (by decide)
  have hread_minute : parseDigitsAt (alarmText alarm) 3 2 = some alarm.minute := parseDigitsAt_padded (by rw [hexplicit, hn]; rfl) hminute (by decide)
  have htitle_drop : ((alarmText alarm).drop 6).dropWhile (· = 32) = alarm.title := by
    have hdrop : (alarmText alarm).drop 6 = alarm.title := by
      rw [hexplicit]
      rfl
    obtain ⟨c, title, hcons⟩ := List.exists_cons_of_ne_nil (titleValid_iff.mp h.title).nonempty
    have hblank : blank c = false := htitle.first c (by rw [hcons]; rfl)
    rw [hdrop, hcons]
    exact List.dropWhile_cons_of_neg (by rintro hc; rw [of_decide_eq_true hc] at hblank; cases hblank)
  have hchecks : ¬(alarm.hour > 23 ∨ alarm.minute > 59 ∨ (!titleValid alarm.title 25) = true) := by
    obtain ⟨hhour, hminute, -, htitle⟩ := h
    rw [htitle]
    rintro (hbad | hbad | hbad)
    all_goals first | omega | cases hbad
  rw [formatAlarmInput_eq h, parseAlarmInput, if_neg hinput, htrim]
  simp only [cutSuffix_alarmText halarm.trim_eq hdays]
  simp only [if_neg hshape, hread_hour, hread_minute, htitle_drop, if_neg hchecks, Option.bind_eq_bind, Option.bind_some]

theorem parseAlarmInput_result {input : Bytes} (h : parseAlarmInput input = some alarm) : NamedDays alarm.dayMask ∧ Text.Trimmed blank alarm.title := by
  rw [parseAlarmInput] at h
  split at h
  · cases h
  · have htext := cutSuffix_trimmed 127 maskSuffixes (show Text.Trimmed blank (Text.trim blank input) from Text.trimmed_trim input)
    have hmask := cutSuffix_value (trim input) 127 maskSuffixes
    rw [← trim] at htext
    cases hcut : cutSuffix (trim input) 127 maskSuffixes with
    | mk text dayMask =>
      rw [hcut] at h htext hmask
      dsimp only at h htext hmask
      split at h
      · cases h
      · simp only [Option.bind_eq_bind, Option.bind_eq_some_iff] at h
        obtain ⟨hour, -, minute, -, h⟩ := h
        split at h
        · cases h
        · next hchecks =>
          simp only [not_or, Bool.not_eq_true', Bool.not_eq_false] at hchecks
          obtain ⟨-, -, htitle⟩ := hchecks
          obtain rfl := Option.some.inj h
          obtain ⟨hne, -, hprintable⟩ := titleValid_iff.mp htitle
          refine ⟨?_, fun a ha => ?_, fun a ha => htext.last a ?_⟩
          · simpa [maskSuffixes, NamedDays] using hmask
          · have hnot_blank : a ≠ 32 := by
              have hhead := List.head?_dropWhile_not (fun c : UInt8 => decide (c = 32)) (text.drop 6)
              dsimp only at ha
              rw [ha] at hhead
              simpa using hhead
            have hlow := (titleCharacter_bounds (hprintable a (List.mem_of_head? ha))).1
            have hnot_tab : a ≠ 9 := by
              rintro rfl
              exact absurd hlow (by decide)
            simp [blank, hnot_blank, hnot_tab]
          · have hsuffix : ((text.drop 6).dropWhile (· = 32)) <:+ text := (List.dropWhile_suffix _).trans (List.drop_suffix 6 text)
            obtain ⟨front, hfront⟩ := hsuffix
            rw [← hfront, List.getLast?_append_of_ne_nil _ hne]
            exact ha

/-- Editing the alarm without a change keeps its title, time and days. -/
def Alarm.EditKeeps (alarm : Alarm) : Prop :=
  ∃ edited, parseAlarmInput (formatAlarmInput alarm) = some edited ∧ edited.title = alarm.title ∧ edited.hour = alarm.hour ∧
    edited.minute = alarm.minute ∧ edited.dayMask = alarm.dayMask

theorem alarm_editKeeps_iff (h : alarm.Valid) : alarm.EditKeeps ↔ trim alarm.title = alarm.title ∧ NamedDays alarm.dayMask := by
  rw [trim_idem_iff]
  constructor
  · rintro ⟨edited, hparse, htitle, -, -, hmask⟩
    obtain ⟨hdays, htrimmed⟩ := parseAlarmInput_result hparse
    exact ⟨htitle ▸ htrimmed, hmask ▸ hdays⟩
  · rintro ⟨htitle, hdays⟩
    exact ⟨_, parseAlarmInput_format h htitle hdays, rfl, rfl, rfl, rfl⟩

end

/-- What the parsers of the lines accept is kept by an edit exactly if its title has no blank at either end, and the days of an alarm have a
name. -/
theorem edit_keeps_iff (line : Bytes) :
    (∀ event, parseCalendarLine line = some event → ∀ selected, event.EditKeeps selected ↔ trim event.title = event.title) ∧
      ∀ alarm, parseAlarmLine line = some alarm → (alarm.EditKeeps ↔ trim alarm.title = alarm.title ∧ NamedDays alarm.dayMask) :=
  ⟨fun _ h _ => event_editKeeps_iff (parseCalendarLine_valid h), fun _ h => alarm_editKeeps_iff (parseAlarmLine_valid h)⟩

theorem edit_keeps_iff_sample : meeting.EditKeeps ⟨2024, 1, 15⟩ ↔ trim meeting.title = meeting.title :=
  (edit_keeps_iff (ascii "E2|2024-01-15|09:00|0060|M|15|Plan")).1 meeting (by decide) ⟨2024, 1, 15⟩

/-- The alarm of Sundays becomes one of all days. -/
theorem sundays_become_daily : ¬((∀ line event, parseCalendarLine line = some event → ∀ selected, event.EditKeeps selected) ∧
    ∀ line alarm, parseAlarmLine line = some alarm → alarm.EditKeeps) := by
  rintro ⟨-, hkeeps⟩
  have halarm := hkeeps (ascii "A1|07:00|1|001|Run")
    { hour := 7, minute := 0, dayMask := 1, enabled := true, lastFiredStamp := neverFired, title := ascii "Run" } (by decide)
  obtain ⟨edited, hparse, -, -, -, hmask⟩ := halarm
  rcases (parseAlarmInput_result hparse).1 with hdays | hdays | hdays | hdays <;> exact absurd (hdays.symm.trans hmask) (by decide)

end ZenovOS.Productivity

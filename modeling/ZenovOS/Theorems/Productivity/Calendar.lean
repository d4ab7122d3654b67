import Mathlib.Order.Bounds.Basic
import ZenovOS.Productivity.Calendar
import ZenovOS.Theorems.Productivity.Dates

/-! The next occurrence of an event is the least date on which it occurs, unless the day of a monthly event comes before its start. -/

namespace ZenovOS.Productivity
open Blocks

/-! ### Accepted events -/

/-- What the parser of the lines checks. -/
structure CalendarEvent.Valid (event : CalendarEvent) : Prop where
  date : event.toDate.Valid
  hour : event.hour ≤ 23
  minute : event.minute ≤ 59
  duration : 1 ≤ event.durationMinutes ∧ event.durationMinutes ≤ 1440
  repeatDay : 1 ≤ event.repeatDay ∧ event.repeatDay ≤ 31
  title : titleValid event.title 33 = true

theorem parseCalendarLine_valid {line : Bytes} {event : CalendarEvent} (h : parseCalendarLine line = some event) : event.Valid := by
  rw [parseCalendarLine] at h
  split at h
  · cases h
  · simp only [Option.bind_eq_bind, Option.bind_eq_some_iff] at h
    obtain ⟨year, -, month, -, day, -, hour, -, minute, -, duration, -, repeatDay, -, code, -, repeats, -, h⟩ := h
    split at h
    · cases h
    · next hchecks =>
      simp only [not_or, not_not, not_lt, Bool.not_eq_true', Bool.not_eq_false] at hchecks
      obtain ⟨hdate, hhour, hminute, hlow, hhigh, hfirst, hlast, htitle⟩ := hchecks
      obtain rfl := Option.some.inj h
      exact ⟨hdate, hhour, hminute, ⟨hlow, hhigh⟩, ⟨hfirst, hlast⟩, htitle⟩

/-! ### Occurrences -/

section
variable {event : CalendarEvent}

theorem CalendarEvent.Valid.anchor (h : event.Valid) : 1 ≤ event.anchor := by
  obtain ⟨hlow, -⟩ := h.repeatDay
  rw [CalendarEvent.anchor, if_pos (by omega)]
  exact hlow

variable (event) in
theorem nextMonthly_eq (after rounds index : Nat) :
    nextMonthly event after rounds index = none ∧ (∀ i, index ≤ i → i < index + rounds → ordinal (monthDay event.anchor i) < after) ∨
      ∃ i, index ≤ i ∧ i < index + rounds ∧ nextMonthly event after rounds index = some (monthDay event.anchor i) ∧
        after ≤ ordinal (monthDay event.anchor i) ∧ ∀ j, index ≤ j → j < i → ordinal (monthDay event.anchor j) < after := by
  induction rounds generalizing index with
  | zero => exact Or.inl ⟨rfl, fun i hi hlt => absurd (hi.trans_lt hlt) (lt_irrefl _)⟩
  | succ rounds ih =>
    rw [nextMonthly]
    by_cases hafter : ordinal (monthDay event.anchor index) ≥ after
    · exact Or.inr ⟨index, Nat.le_refl _, by omega, if_pos hafter, hafter, fun j hj hlt => absurd (hj.trans_lt hlt) (lt_irrefl _)⟩
    · have hskip : (if ordinal (monthDay event.anchor index) ≥ after then some (monthDay event.anchor index) else nextMonthly event after rounds (index + 1)) =
          nextMonthly event after rounds (index + 1) := if_neg hafter
      have hbefore {P : Nat → Prop} (hfirst : P index) (hmore : ∀ j, index + 1 ≤ j → P j) (j : Nat) (hj : index ≤ j) : P j := by
        rcases Nat.eq_or_lt_of_le hj with rfl | hlt
        · exact hfirst
        · exact hmore j hlt
      rcases ih (index + 1) with ⟨hnone, hall⟩ | ⟨i, hi, hlt, hsome, hle, hall⟩
      · refine Or.inl ⟨hskip.trans hnone, hbefore (fun _ => not_le.mp hafter) fun j hj hlt => hall j hj (by omega)⟩
      · exact Or.inr ⟨i, by omega, by omega, hskip.trans hsome, hle, hbefore (fun _ => not_le.mp hafter) fun j hj hlt => hall j hj hlt⟩

/-! ### The next occurrence -/

/-- The dates of an event from a date on. -/
def occurrencesFrom (event : CalendarEvent) (after : Date) : Set Date := {date | date.Valid ∧ after ≤ date ∧ occursOn event date = true}

/-- There is a next occurrence if the event occurs again, and it is the least date on which it does. -/
def NextAgrees (event : CalendarEvent) (after : Date) : Prop :=
  ((nextOccurrence event after).isSome = true ↔ (occurrencesFrom event after).Nonempty) ∧
    ∀ date, nextOccurrence event after = some date → IsLeast (occurrencesFrom event after) date

variable {after : Date}

theorem nextAgrees_of_none (hafter : after.Valid) (h : nextOccurrence event after = none)
    (hnever : ∀ date : Date, date.Valid → ordinal after ≤ ordinal date → occursOn event date = false) : NextAgrees event after := by
  refine ⟨iff_of_false (by rw [h]; exact Bool.false_ne_true) ?_, fun date hdate => by rw [h] at hdate; cases hdate⟩
  rintro ⟨date, hvalid, hle, hoccurs⟩
  rw [hnever date hvalid ((le_iff_ordinal hafter hvalid).mp hle)] at hoccurs
  cases hoccurs

theorem nextAgrees_of_some (hafter : after.Valid) {date : Date} (h : nextOccurrence event after = some date) (hvalid : date.Valid)
    (hle : ordinal after ≤ ordinal date) (hoccurs : occursOn event date = true)
    (hleast : ∀ date' : Date, date'.Valid → ordinal after ≤ ordinal date' → occursOn event date' = true → ordinal date ≤ ordinal date') :
    NextAgrees event after := by
  have hmem : date ∈ occurrencesFrom event after := ⟨hvalid, (le_iff_ordinal hafter hvalid).mpr hle, hoccurs⟩
  refine ⟨iff_of_true (by rw [h]; rfl) ⟨date, hmem⟩, fun date' hdate' => ?_⟩
  obtain rfl := Option.some.inj (h.symm.trans hdate')
  refine ⟨hmem, ?_⟩
  rintro date' ⟨hvalid', hle', hoccurs'⟩
  exact (le_iff_ordinal hvalid hvalid').mpr (hleast date' hvalid' ((le_iff_ordinal hafter hvalid').mp hle') hoccurs')

theorem nextAgrees_once (h : event.Valid) (hafter : after.Valid) (hrepeat : event.repeats = .none) : NextAgrees event after := by
  have hoccurs (date : Date) : occursOn event date = true ↔ ordinal date = ordinal event.toDate := by
    rw [occursOn, hrepeat]
    dsimp only
    split
    · next hlt => exact iff_of_false Bool.false_ne_true hlt.ne
    · exact decide_eq_true_iff
  have hnext : nextOccurrence event after = if ordinal event.toDate < ordinal after then none else some event.toDate := by
    rw [nextOccurrence, hrepeat]
  by_cases hlt : ordinal event.toDate < ordinal after
  · rw [if_pos hlt] at hnext
    refine nextAgrees_of_none hafter hnext fun date _ hle => ?_
    rw [← Bool.not_eq_true, hoccurs]
    omega
  · rw [if_neg hlt] at hnext
    exact nextAgrees_of_some hafter hnext h.date (not_lt.mp hlt) ((hoccurs _).mpr rfl) fun date _ _ ho => ((hoccurs date).mp ho).ge

theorem least_interval {start after interval target : Nat} (hinterval : interval = 1 ∨ interval = 7)
    (htarget : target = if start < after then start + (after - start + interval - 1) / interval * interval else start) :
    start ≤ target ∧ after ≤ target ∧ (target - start) % interval = 0 ∧
      ∀ n, start ≤ n → after ≤ n → (n - start) % interval = 0 → target ≤ n := by
  subst htarget
  rcases hinterval with rfl | rfl <;> split <;> refine ⟨?_, ?_, ?_, fun n hn hn' hmod => ?_⟩ <;> omega

theorem nextAgrees_interval (hafter : after.Valid) {interval : Nat} (hrepeat : event.repeats = .daily ∧ interval = 1 ∨ event.repeats = .weekly ∧ interval = 7) :
    NextAgrees event after := by
  have hoccurs (date : Date) : occursOn event date = true ↔
      ordinal event.toDate ≤ ordinal date ∧ (ordinal date - ordinal event.toDate) % interval = 0 := by
    rcases hrepeat with ⟨hrepeat, rfl⟩ | ⟨hrepeat, rfl⟩ <;> rw [occursOn, hrepeat] <;> simp [Nat.mod_one]
  obtain ⟨target, htarget, hnext⟩ : ∃ target, target = (if ordinal event.toDate < ordinal after then
        ordinal event.toDate + (ordinal after - ordinal event.toDate + interval - 1) / interval * interval else ordinal event.toDate) ∧
      nextOccurrence event after = fromOrdinal target := by
    refine ⟨_, rfl, ?_⟩
    rcases hrepeat with ⟨hrepeat, rfl⟩ | ⟨hrepeat, rfl⟩ <;> rw [nextOccurrence, hrepeat] <;> rfl
  obtain ⟨hstart, hle, hmod, hleast⟩ := least_interval (by rcases hrepeat with h | h <;> simp [h]) htarget
  by_cases hmax : target > maximumOrdinal
  · refine nextAgrees_of_none hafter (by rw [hnext, fromOrdinal, if_pos hmax]) fun date hvalid hdate => ?_
    rw [← Bool.not_eq_true, hoccurs]
    rintro ⟨hfrom, hdays⟩
    have hlarge := hleast _ hfrom hdate hdays
    have hbound := ordinal_le_maximum hvalid
    omega
  · obtain ⟨hvalid, hordinal⟩ := dateFromOrdinal_valid (not_lt.mp hmax)
    refine nextAgrees_of_some hafter (by rw [hnext, fromOrdinal, if_neg hmax]) hvalid (by rwa [hordinal]) ?_ fun date _ hdate ho => ?_
    · rw [hoccurs, hordinal]
      exact ⟨hstart, hmod⟩
    · obtain ⟨hfrom, hdays⟩ := (hoccurs date).mp ho
      rw [hordinal]
      exact hleast _ hfrom hdate hdays

/-! ### Monthly events -/

theorem occursOn_monthly (h : event.Valid) (hrepeat : event.repeats = .monthly) {date : Date} (hvalid : date.Valid) :
    occursOn event date = true ↔ ordinal event.toDate ≤ ordinal date ∧ date = monthDay event.anchor (monthIndex date) := by
  have hday : date.day = event.occurrenceDay date.year date.month ↔ date = monthDay event.anchor (monthIndex date) := (eq_monthDay_iff hvalid).symm
  rw [occursOn, hrepeat, ← hday]
  dsimp only
  by_cases hlt : ordinal date < ordinal event.toDate
  · rw [if_pos hlt]
    exact iff_of_false Bool.false_ne_true fun hle => absurd hle.1 (not_le.mpr hlt)
  · have hmonth : ¬monthIndex date < monthIndex event.toDate := fun hmonth => hlt ((ordinal_lt_iff hvalid h.date).mpr (Or.inl hmonth))
    rw [if_neg hlt, if_neg hmonth, decide_eq_true_iff]
    exact ⟨fun hday => ⟨not_lt.mp hlt, hday⟩, And.right⟩

/-- The day of a monthly event in the month of its start does not come before the start, or it comes before the date that is asked for. -/
def StartsRight (event : CalendarEvent) (after : Date) : Prop :=
  event.repeats ≠ .monthly ∨ event.day ≤ event.occurrenceDay event.year event.month ∨
    ¬after ≤ { event.toDate with day := event.occurrenceDay event.year event.month }

theorem nextAgrees_monthly (h : event.Valid) (hafter : after.Valid) (hrepeat : event.repeats = .monthly) :
    NextAgrees event after ↔ StartsRight event after := by
  obtain ⟨start, hindex⟩ : ∃ start, start = monthIndex event.toDate := ⟨_, rfl⟩
  obtain ⟨first, hfirst⟩ : ∃ first, first = max (monthIndex after) start := ⟨_, rfl⟩
  have hstart_lt : start < 1200 := by
    rw [hindex]
    exact h.date.monthIndex_lt
  have hfirst_lt : first < 1200 := by
    rw [hfirst]
    exact max_lt hafter.monthIndex_lt hstart_lt
  have hstart : monthDay event.anchor start = { event.toDate with day := event.occurrenceDay event.year event.month } := by
    rw [hindex]
    exact monthDay_monthIndex h.date
  have hnext : nextOccurrence event after = nextMonthly event (ordinal after) (1200 - first) first := by
    rw [nextOccurrence, hrepeat, hfirst, hindex]
  have hright : StartsRight event after ↔
      event.day ≤ event.occurrenceDay event.year event.month ∨ ordinal (monthDay event.anchor start) < ordinal after := by
    rw [StartsRight, ← hstart, le_iff_ordinal hafter (monthDay_valid h.anchor hstart_lt), not_le]
    exact ⟨fun hor => hor.resolve_left (not_not_intro hrepeat), Or.inr⟩
  have hpast {i : Nat} (hi : i < monthIndex after) : ordinal (monthDay event.anchor i) < ordinal after := monthDay_lt_ordinal h.anchor hafter hi
  have hmonth {date : Date} (hvalid : date.Valid) (hle : ordinal after ≤ ordinal date) (hoccurs : occursOn event date = true) :
      ∃ i, first ≤ i ∧ i < 1200 ∧ date = monthDay event.anchor i := by
    obtain ⟨hfrom, hdate⟩ := (occursOn_monthly h hrepeat hvalid).mp hoccurs
    refine ⟨monthIndex date, ?_, hvalid.monthIndex_lt, hdate⟩
    have hnot_after := mt (fun hlt => (ordinal_lt_iff hvalid hafter).mpr (Or.inl hlt)) (not_lt.mpr hle)
    have hnot_start := mt (fun hlt => (ordinal_lt_iff hvalid h.date).mpr (Or.inl hlt)) (not_lt.mpr hfrom)
    rw [← hindex] at hnot_start
    omega
  rcases nextMonthly_eq event (ordinal after) (1200 - first) first with
    ⟨hnone, hall⟩ | ⟨i, hi, hlt, hsome, hle, hall⟩
  · refine iff_of_true ?_ (hright.mpr (Or.inr ?_))
    · refine nextAgrees_of_none hafter (hnext.trans hnone) fun date hvalid hdate => ?_
      rw [← Bool.not_eq_true]
      intro hoccurs
      obtain ⟨i, hi, hlt, rfl⟩ := hmonth hvalid hdate hoccurs
      have hbefore := hall i hi (by omega)
      omega
    · by_cases hstart_first : start < monthIndex after
      · exact hpast hstart_first
      · exact hall start (by omega) (by omega)
  · have hi_lt : i < 1200 := by omega
    have hvalid := monthDay_valid h.anchor hi_lt
    have hagrees : NextAgrees event after ↔ ordinal event.toDate ≤ ordinal (monthDay event.anchor i) := by
      constructor
      · intro hagrees
        exact ((occursOn_monthly h hrepeat hvalid).mp (hagrees.2 _ (hnext.trans hsome)).1.2.2).1
      · intro hfrom
        have hoccurs := (occursOn_monthly h hrepeat hvalid).mpr ⟨hfrom, by rw [monthIndex_monthDay]⟩
        refine nextAgrees_of_some hafter (hnext.trans hsome) hvalid hle hoccurs fun date hdate hdate_le hdate_occurs => ?_
        obtain ⟨j, hj, hj_lt, rfl⟩ := hmonth hdate hdate_le hdate_occurs
        rcases lt_trichotomy i j with hij | rfl | hji
        · exact (monthDay_lt h.anchor hij hj_lt).le
        · exact Nat.le_refl _
        · exact absurd (hall j hj hji) (not_lt.mpr hdate_le)
    rw [hagrees, hright]
    by_cases hsame : i = start
    · -- the search ends in the month of the start
      subst hsame
      have hday : ordinal event.toDate ≤ ordinal (monthDay event.anchor i) ↔ event.day ≤ event.occurrenceDay event.year event.month := by
        rw [← not_lt, ordinal_lt_iff hvalid h.date, monthIndex_monthDay, ← hindex, hstart]
        dsimp only
        omega
      rw [hday]
      exact ⟨Or.inl, fun hor => hor.resolve_right (not_lt.mpr hle)⟩
    · refine iff_of_true ?_ (Or.inr ?_)
      · exact (ordinal_lt_monthDay h.anchor h.date (by omega) hi_lt).le
      · by_cases hstart_first : start < monthIndex after
        · exact hpast hstart_first
        · exact hall start (by omega) (by omega)

/-- The next occurrence of an event is right exactly if the event starts right. -/
theorem nextOccurrence_agrees {line : Bytes} (h : parseCalendarLine line = some event) (hafter : after.Valid) :
    NextAgrees event after ↔ StartsRight event after := by
  have hvalid := parseCalendarLine_valid h
  cases hrepeat : event.repeats with
  | none => exact iff_of_true (nextAgrees_once hvalid hafter hrepeat) (Or.inl (by rw [hrepeat]; decide))
  | daily => exact iff_of_true (nextAgrees_interval hafter (Or.inl ⟨hrepeat, rfl⟩)) (Or.inl (by rw [hrepeat]; decide))
  | weekly => exact iff_of_true (nextAgrees_interval hafter (Or.inr ⟨hrepeat, rfl⟩)) (Or.inl (by rw [hrepeat]; decide))
  | monthly => exact nextAgrees_monthly hvalid hafter hrepeat

/-- On the 15th of each month, from the 15th of January on. -/
def meeting : CalendarEvent :=
  { year := 2024, month := 1, day := 15, hour := 9, minute := 0, durationMinutes := 60, repeats := .monthly, repeatDay := 15, title := ascii "Plan" }

theorem nextOccurrence_agrees_sample : NextAgrees meeting ⟨2024, 1, 1⟩ ↔ StartsRight meeting ⟨2024, 1, 1⟩ :=
  nextOccurrence_agrees (show parseCalendarLine (ascii "E2|2024-01-15|09:00|0060|M|15|Plan") = some meeting by decide) (by decide)

/-- An event of the 5th of each month that starts on January 15: its first occurrence is said to be on January 5. -/
theorem nextOccurrence_before_start : ¬∀ (line : Bytes) (event : CalendarEvent), parseCalendarLine line = some event →
    ∀ after : Date, after.Valid → NextAgrees event after := by
  intro h
  have hagrees := h (ascii "E2|2024-01-15|09:00|0060|M|05|Plan") { meeting with repeatDay := 5 } (by decide) ⟨2024, 1, 1⟩ (by decide)
  have hleast := hagrees.2 ⟨2024, 1, 5⟩ (by decide +kernel)
  exact absurd hleast.1.2.2 (by decide)

end
end ZenovOS.Productivity

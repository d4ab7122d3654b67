import Mathlib.Order.Bounds.Basic
import ZenovOS.Productivity.Reminders
import ZenovOS.Theorems.Productivity.Dates

/-! A repeated reminder goes on to the first time of its series that is still to come. The exception is a daily or weekly reminder whose
time is later on the day of now: it goes on to the day behind. -/

namespace ZenovOS.Productivity

/-! ### Accepted reminders -/

/-- What the parser of the lines checks. -/
structure Reminder.Valid (reminder : Reminder) : Prop where
  due : reminder.toDateTime.Valid
  repeatDay : 1 ≤ reminder.repeatDay ∧ reminder.repeatDay ≤ 31
  title : titleValid reminder.title 41 = true

/-! ### The series of a reminder -/

section
variable {reminder : Reminder} {now : DateTime}

/-- The times of a repeated reminder, up to the last day. -/
def Reminder.series (reminder : Reminder) : Set DateTime :=
  {time | time.Valid ∧ time.hour = reminder.hour ∧ time.minute = reminder.minute ∧
    match reminder.repeats with
    | .none => False
    | .daily => ordinal reminder.toDate ≤ ordinal time.toDate
    | .weekly => ordinal reminder.toDate ≤ ordinal time.toDate ∧ (ordinal time.toDate - ordinal reminder.toDate) % 7 = 0
    | .monthly => monthIndex reminder.toDate < monthIndex time.toDate ∧ time.day = min reminder.repeatDay (daysInMonth time.year time.month)}

/-- Those that are still to come. -/
def Reminder.coming (reminder : Reminder) (now : DateTime) : Set DateTime :=
  {time | time ∈ reminder.series ∧ ¬time ≤ now ∧ ¬time ≤ reminder.toDateTime}

/-- The reminder goes on to the first time that is still to come, and it stays only if there is none. -/
def AdvancesRight (reminder : Reminder) (now : DateTime) : Prop :=
  ((advanceRepeat (some now) reminder).1 = true → IsLeast (reminder.coming now) (advanceRepeat (some now) reminder).2.toDateTime) ∧
    ((advanceRepeat (some now) reminder).1 = false → reminder.coming now = ∅)

theorem advancesRight_true {next : Reminder} (h : advanceRepeat (some now) reminder = (true, next)) :
    AdvancesRight reminder now ↔ IsLeast (reminder.coming now) next.toDateTime := by
  rw [AdvancesRight, h]
  exact ⟨fun hright => hright.1 rfl, fun hleast => ⟨fun _ => hleast, fun hfalse => absurd hfalse Bool.true_eq_false_eq_False⟩⟩

theorem advancesRight_false {next : Reminder} (h : advanceRepeat (some now) reminder = (false, next)) :
    AdvancesRight reminder now ↔ reminder.coming now = ∅ := by
  rw [AdvancesRight, h]
  exact ⟨fun hright => hright.2 rfl, fun hempty => ⟨fun htrue => absurd htrue Bool.false_ne_true, fun _ => hempty⟩⟩

/-- Times that follow each other. -/
structure Following (f : Nat → DateTime) (bound : Nat) : Prop where
  valid : ∀ i < bound, (f i).Valid
  lt : ∀ i j, i < j → j < bound → minuteStamp (f i) < minuteStamp (f j)

theorem Following.le_iff {f : Nat → DateTime} {bound i j : Nat} (h : Following f bound) (hi : i < bound) (hj : j < bound) : f i ≤ f j ↔ i ≤ j := by
  rw [le_iff_minuteStamp (h.valid i hi) (h.valid j hj)]
  rcases lt_trichotomy i j with hlt | rfl | hlt
  · exact iff_of_true (h.lt i j hlt hj).le hlt.le
  · exact iff_of_true (Nat.le_refl _) (Nat.le_refl _)
  · exact iff_of_false (not_le.mpr (h.lt j i hlt hi)) (not_le.mpr hlt)

theorem Following.inj {f : Nat → DateTime} {bound i j : Nat} (h : Following f bound) (hi : i < bound) (hj : j < bound) (heq : f i = f j) : i = j := by
  have hle : f i ≤ f i := (h.le_iff hi hi).mpr (Nat.le_refl _)
  exact Nat.le_antisymm ((h.le_iff hi hj).mp (heq ▸ hle)) ((h.le_iff hj hi).mp (heq ▸ hle))

theorem Following.isLeast_iff {f : Nat → DateTime} {bound i : Nat} (h : Following f bound) {P : Nat → Prop} (hi : i < bound) :
    IsLeast {time | ∃ j < bound, P j ∧ time = f j} (f i) ↔ P i ∧ ∀ j < bound, P j → i ≤ j := by
  constructor
  · rintro ⟨⟨j, hj, hP, heq⟩, hleast⟩
    obtain rfl := h.inj hi hj heq
    exact ⟨hP, fun j hj hP => (h.le_iff hi hj).mp (hleast ⟨j, hj, hP, rfl⟩)⟩
  · rintro ⟨hP, hleast⟩
    refine ⟨⟨i, hi, hP, rfl⟩, ?_⟩
    rintro time ⟨j, hj, hP, rfl⟩
    exact (h.le_iff hi hj).mpr (hleast j hj hP)

theorem Following.empty_iff {f : Nat → DateTime} {bound : Nat} {P : Nat → Prop} :
    {time | ∃ j < bound, P j ∧ time = f j} = ∅ ↔ ∀ j < bound, ¬P j := by
  rw [Set.eq_empty_iff_forall_notMem]
  constructor
  · exact fun hnone j hj hP => hnone (f j) ⟨j, hj, hP, rfl⟩
  · rintro hnone time ⟨j, hj, hP, -⟩
    exact hnone j hj hP

/-! ### Days and weeks -/

/-- The reminder on another day. -/
def Reminder.onDay (reminder : Reminder) (n : Nat) : Reminder := { reminder with toDate := dateFromOrdinal n }

theorem onDay_valid (h : reminder.toDateTime.Valid) {n : Nat} (hn : n ≤ maximumOrdinal) :
    (reminder.onDay n).toDateTime.Valid ∧ ordinal (reminder.onDay n).toDate = n := by
  obtain ⟨hvalid, hordinal⟩ := dateFromOrdinal_valid hn
  exact ⟨⟨hvalid, h.2⟩, hordinal⟩

theorem minuteStamp_onDay (h : reminder.toDateTime.Valid) {n : Nat} (hn : n ≤ maximumOrdinal) :
    minuteStamp (reminder.onDay n).toDateTime = n * 1440 + reminder.hour * 60 + reminder.minute := by
  rw [minuteStamp, (onDay_valid h hn).2]
  rfl

theorem compareDatetime_nonpos {left right : DateTime} : compareDatetime left right ≤ 0 ↔ minuteStamp left ≤ minuteStamp right := by
  rw [compareDatetime]
  split
  · omega
  · split <;> omega

theorem addDays_eq (h : reminder.toDateTime.Valid) {days : Nat} (hdays : ordinal reminder.toDate + days ≤ maximumOrdinal) :
    reminder.addDays days = reminder.onDay (ordinal reminder.toDate + days) := by
  rw [Reminder.addDays, addMinutes_days h hdays]
  rfl

theorem onDay_onDay (m n : Nat) : (reminder.onDay m).onDay n = reminder.onDay n := rfl

/-- The days of the series that lie before or at now, and the one behind them. -/
def missed (now : DateTime) (interval due : Nat) : Nat := ((ordinal now.toDate - due) / interval + 1) * interval

theorem advanceDays_eq {interval : Nat} (hinterval : interval ≤ 7) (h : reminder.toDateTime.Valid) :
    advanceDays now interval reminder =
      if maximumOrdinal < ordinal reminder.toDate + interval then (false, reminder)
      else if minuteStamp now < minuteStamp (reminder.onDay (ordinal reminder.toDate + interval)).toDateTime then
        (true, reminder.onDay (ordinal reminder.toDate + interval))
      else if maximumOrdinal < ordinal reminder.toDate + interval + missed now interval (ordinal reminder.toDate + interval) then
        (false, reminder.onDay (ordinal reminder.toDate + interval))
      else (true, reminder.onDay (ordinal reminder.toDate + interval + missed now interval (ordinal reminder.toDate + interval))) := by
  have hlimit : ordinal reminder.toDate > maximumOrdinal - interval ↔ maximumOrdinal < ordinal reminder.toDate + interval := by
    rw [maximumOrdinal_eq]
    omega
  rw [advanceDays]
  dsimp only
  by_cases hmax : maximumOrdinal < ordinal reminder.toDate + interval
  · rw [if_pos (hlimit.mpr hmax), if_pos hmax]
  · obtain ⟨hvalid, hordinal⟩ := onDay_valid h (not_lt.mp hmax)
    have hextra : missed now interval (ordinal reminder.toDate + interval) > maximumOrdinal ∨
        ordinal reminder.toDate + interval > maximumOrdinal - missed now interval (ordinal reminder.toDate + interval) ↔
          maximumOrdinal < ordinal reminder.toDate + interval + missed now interval (ordinal reminder.toDate + interval) := by omega
    rw [if_neg (mt hlimit.mp hmax), if_neg hmax, addDays_eq h (not_lt.mp hmax), hordinal]
    by_cases hcoming : minuteStamp now < minuteStamp (reminder.onDay (ordinal reminder.toDate + interval)).toDateTime
    · rw [if_neg (mt compareDatetime_nonpos.mp (not_le.mpr hcoming)), if_pos hcoming]
    · rw [if_pos (compareDatetime_nonpos.mpr (not_lt.mp hcoming)), if_neg hcoming, ← missed]
      by_cases hbehind : maximumOrdinal < ordinal reminder.toDate + interval + missed now interval (ordinal reminder.toDate + interval)
      · rw [if_pos (hextra.mpr hbehind), if_pos hbehind]
      · rw [if_neg (mt hextra.mp hbehind), if_neg hbehind, addDays_eq hvalid (by rw [hordinal]; exact not_lt.mp hbehind), hordinal, onDay_onDay]

theorem onDay_following (h : reminder.toDateTime.Valid) : Following (fun n => (reminder.onDay n).toDateTime) (maximumOrdinal + 1) where
  valid n hn := (onDay_valid h (Nat.le_of_lt_succ hn)).1
  lt i j hij hj := by
    obtain ⟨hvalid, hordinal⟩ := onDay_valid h (n := i) (by omega)
    obtain ⟨hvalid', hordinal'⟩ := onDay_valid h (n := j) (by omega)
    rw [minuteStamp_lt_iff hvalid hvalid', hordinal, hordinal']
    exact Or.inl hij

/-- The day of a time of the series that is still to come. -/
def ComingDay (reminder : Reminder) (now : DateTime) (interval n : Nat) : Prop :=
  ordinal reminder.toDate < n ∧ (n - ordinal reminder.toDate) % interval = 0 ∧ minuteStamp now < n * 1440 + reminder.hour * 60 + reminder.minute

theorem coming_days {interval : Nat} (h : reminder.toDateTime.Valid) (hnow : now.Valid)
    (hrepeat : reminder.repeats = .daily ∧ interval = 1 ∨ reminder.repeats = .weekly ∧ interval = 7) :
    reminder.coming now = {time | ∃ n < maximumOrdinal + 1, ComingDay reminder now interval n ∧ time = (reminder.onDay n).toDateTime} := by
  have hseries (time : DateTime) : time ∈ reminder.series ↔ time.Valid ∧ time.hour = reminder.hour ∧ time.minute = reminder.minute ∧
      ordinal reminder.toDate ≤ ordinal time.toDate ∧ (ordinal time.toDate - ordinal reminder.toDate) % interval = 0 := by
    rcases hrepeat with ⟨hrepeat, rfl⟩ | ⟨hrepeat, rfl⟩ <;> simp [Reminder.series, hrepeat, Nat.mod_one]
  ext time
  constructor
  · rintro ⟨hmem, hafter_now, hafter⟩
    obtain ⟨hvalid, hhour, hminute, hle, hmod⟩ := (hseries time).mp hmem
    rw [le_iff_minuteStamp hvalid hnow, not_le] at hafter_now
    rw [le_iff_minuteStamp hvalid h, not_le, minuteStamp_lt_iff h hvalid, hhour, hminute] at hafter
    refine ⟨ordinal time.toDate, Nat.lt_succ_of_le (ordinal_le_maximum hvalid.1), ⟨by omega, hmod, ?_⟩, ?_⟩
    · rw [← hhour, ← hminute]
      exact hafter_now
    · rw [Reminder.onDay, dateFromOrdinal_ordinal hvalid.1, ← hhour, ← hminute]
  · rintro ⟨n, hn, ⟨hlt, hmod, hcoming⟩, rfl⟩
    obtain ⟨hvalid, hordinal⟩ := onDay_valid h (Nat.le_of_lt_succ hn)
    refine ⟨(hseries _).mpr ⟨hvalid, rfl, rfl, by rw [hordinal]; exact hlt.le, by rw [hordinal]; exact hmod⟩, ?_, ?_⟩
    · rw [le_iff_minuteStamp hvalid hnow, not_le, minuteStamp_onDay h (Nat.le_of_lt_succ hn)]
      exact hcoming
    · rw [le_iff_minuteStamp hvalid h, not_le, minuteStamp_lt_iff h hvalid, hordinal]
      exact Or.inl hlt

/-- A time of the series is later on the day of now, more than one interval behind the last one. -/
def LaterToday (reminder : Reminder) (now : DateTime) (interval : Nat) : Prop :=
  ordinal reminder.toDate + interval < ordinal now.toDate ∧ (ordinal now.toDate - ordinal reminder.toDate) % interval = 0 ∧
    now.hour * 60 + now.minute < reminder.hour * 60 + reminder.minute

theorem advanceDays_right {interval : Nat} (h : reminder.toDateTime.Valid) (hnow : now.Valid)
    (hrepeat : reminder.repeats = .daily ∧ interval = 1 ∨ reminder.repeats = .weekly ∧ interval = 7) :
    AdvancesRight reminder now ↔ ¬LaterToday reminder now interval := by
  have hrun : advanceRepeat (some now) reminder = advanceDays now interval reminder := by
    rcases hrepeat with ⟨hrepeat, rfl⟩ | ⟨hrepeat, rfl⟩ <;> simp [advanceRepeat, hrepeat]
  have hinterval : interval ≤ 7 := by rcases hrepeat with ⟨-, rfl⟩ | ⟨-, rfl⟩ <;> decide
  have hcoming := coming_days h hnow hrepeat
  have hfollowing := onDay_following h
  have hnow_day := ordinal_le_maximum hnow.1
  have hright {n : Nat} (hn : n ≤ maximumOrdinal) (hadvance : advanceRepeat (some now) reminder = (true, reminder.onDay n)) :
      AdvancesRight reminder now ↔
        ComingDay reminder now interval n ∧ ∀ m < maximumOrdinal + 1, ComingDay reminder now interval m → n ≤ m := by
    rw [advancesRight_true hadvance, hcoming]
    exact hfollowing.isLeast_iff (Nat.lt_succ_of_le hn)
  have hstays {next : Reminder} (hadvance : advanceRepeat (some now) reminder = (false, next)) :
      AdvancesRight reminder now ↔ ∀ m < maximumOrdinal + 1, ¬ComingDay reminder now interval m := by
    rw [advancesRight_false hadvance, hcoming]
    exact Following.empty_iff
  have hhour := h.2
  have hnow_hour := hnow.2
  rw [advanceDays_eq hinterval h] at hrun
  unfold ComingDay minuteStamp at hright hstays
  unfold LaterToday
  by_cases hmax : maximumOrdinal < ordinal reminder.toDate + interval
  · rw [if_pos hmax] at hrun
    rw [hstays hrun]
    refine iff_of_true ?_ (by omega)
    rintro m hm ⟨hlt, hmod, -⟩
    rcases hrepeat with ⟨-, rfl⟩ | ⟨-, rfl⟩ <;> omega
  · rw [if_neg hmax, minuteStamp_onDay h (not_lt.mp hmax)] at hrun
    by_cases hcomes : minuteStamp now < (ordinal reminder.toDate + interval) * 1440 + reminder.hour * 60 + reminder.minute
    · rw [if_pos hcomes] at hrun
      rw [hright (not_lt.mp hmax) hrun]
      unfold minuteStamp at hcomes
      refine iff_of_true ⟨⟨?_, ?_, hcomes⟩, ?_⟩ (by omega)
      · rcases hrepeat with ⟨-, rfl⟩ | ⟨-, rfl⟩ <;> omega
      · rw [Nat.add_sub_cancel_left, Nat.mod_self]
      · rintro m hm ⟨hlt, hmod, -⟩
        rcases hrepeat with ⟨-, rfl⟩ | ⟨-, rfl⟩ <;> omega
    · rw [if_neg hcomes] at hrun
      unfold minuteStamp at hcomes
      have hbehind : ordinal now.toDate < ordinal reminder.toDate + interval + missed now interval (ordinal reminder.toDate + interval) ∧
          (ordinal reminder.toDate + interval + missed now interval (ordinal reminder.toDate + interval) - ordinal reminder.toDate) % interval = 0 := by
        unfold missed
        rcases hrepeat with ⟨-, rfl⟩ | ⟨-, rfl⟩ <;> omega
      have hfirst {m : Nat} (hlt : ordinal reminder.toDate < m) (hmod : (m - ordinal reminder.toDate) % interval = 0)
          (hcoming : ordinal now.toDate * 1440 + now.hour * 60 + now.minute < m * 1440 + reminder.hour * 60 + reminder.minute)
          (hnot : ¬(ordinal reminder.toDate + interval < ordinal now.toDate ∧ (ordinal now.toDate - ordinal reminder.toDate) % interval = 0 ∧
            now.hour * 60 + now.minute < reminder.hour * 60 + reminder.minute)) :
          ordinal reminder.toDate + interval + missed now interval (ordinal reminder.toDate + interval) ≤ m := by
        unfold missed
        rcases hrepeat with ⟨-, rfl⟩ | ⟨-, rfl⟩ <;> omega
      by_cases hend : maximumOrdinal < ordinal reminder.toDate + interval + missed now interval (ordinal reminder.toDate + interval)
      · rw [if_pos hend] at hrun
        rw [hstays hrun]
        constructor
        · rintro hnone ⟨hlt, hmod, htime⟩
          exact hnone (ordinal now.toDate) (by omega) ⟨by omega, hmod, by omega⟩
        · rintro hnot m hm ⟨hlt, hmod, hcoming⟩
          have hle := hfirst hlt hmod hcoming hnot
          omega
      · rw [if_neg hend] at hrun
        rw [hright (not_lt.mp hend) hrun]
        constructor
        · rintro ⟨-, hleast⟩ ⟨hlt, hmod, htime⟩
          have hle := hleast (ordinal now.toDate) (by omega) ⟨by omega, hmod, by omega⟩
          omega
        · intro hnot
          refine ⟨⟨by omega, hbehind.2, by omega⟩, ?_⟩
          rintro m - ⟨hlt, hmod, hcoming⟩
          exact hfirst hlt hmod hcoming hnot

/-! ### Months -/

/-- The reminder in another month. -/
def Reminder.inMonth (reminder : Reminder) (index : Nat) : Reminder := { reminder with toDate := monthDay reminder.repeatDay index }

theorem inMonth_valid (h : reminder.Valid) {index : Nat} (hindex : index < 1200) : (reminder.inMonth index).toDateTime.Valid :=
  ⟨monthDay_valid h.repeatDay.1 hindex, h.due.2⟩

theorem inMonth_following (h : reminder.Valid) : Following (fun index => (reminder.inMonth index).toDateTime) 1200 where
  valid index hindex := inMonth_valid h hindex
  lt i j hij hj := by
    rw [minuteStamp_lt_iff (inMonth_valid h (hij.trans hj)) (inMonth_valid h hj)]
    exact Or.inl (monthDay_lt h.repeatDay.1 hij hj)

theorem addMonth_eq (h : 1 ≤ reminder.repeatDay) : addMonth reminder =
    if monthIndex reminder.toDate ≥ 1199 then (false, reminder) else (true, reminder.inMonth (monthIndex reminder.toDate + 1)) := by
  rw [addMonth]
  dsimp only
  rw [if_pos (show reminder.repeatDay ≠ 0 by omega)]
  rfl

theorem addMonth_inMonth (h : 1 ≤ reminder.repeatDay) (index : Nat) : addMonth (reminder.inMonth index) =
    if index ≥ 1199 then (false, reminder.inMonth index) else (true, reminder.inMonth (index + 1)) := by
  rw [addMonth_eq (show 1 ≤ (reminder.inMonth index).repeatDay from h)]
  have hindex : monthIndex (reminder.inMonth index).toDate = index := monthIndex_monthDay index
  rw [hindex]
  rfl

variable (now) in
theorem advanceMonths_eq (h : 1 ≤ reminder.repeatDay) (guard index : Nat) (hindex : index < 1200) (hguard : 1200 ≤ index + guard) :
    (∃ next, advanceMonths now guard (reminder.inMonth index) = (false, next) ∧
        ∀ i, index ≤ i → i < 1200 → minuteStamp (reminder.inMonth i).toDateTime ≤ minuteStamp now) ∨
      ∃ i, index ≤ i ∧ i < 1200 ∧ advanceMonths now guard (reminder.inMonth index) = (true, reminder.inMonth i) ∧
        minuteStamp now < minuteStamp (reminder.inMonth i).toDateTime ∧
          ∀ j, index ≤ j → j < i → minuteStamp (reminder.inMonth j).toDateTime ≤ minuteStamp now := by
  induction guard generalizing index with
  | zero => omega
  | succ guard ih =>
    have hcompare : compareDatetime (reminder.inMonth index).toDateTime now > 0 ↔ minuteStamp now < minuteStamp (reminder.inMonth index).toDateTime := by
      rw [gt_iff_lt, ← not_le, ← not_le, compareDatetime_nonpos]
    rw [advanceMonths]
    by_cases hcoming : minuteStamp now < minuteStamp (reminder.inMonth index).toDateTime
    · rw [if_pos (hcompare.mpr hcoming)]
      exact Or.inr ⟨index, Nat.le_refl _, hindex, rfl, hcoming, fun j hj hlt => absurd (hj.trans_lt hlt) (lt_irrefl _)⟩
    · rw [if_neg (mt hcompare.mp hcoming), addMonth_inMonth h]
      have hbefore {P : Nat → Prop} (hfirst : P index) (hmore : ∀ j, index + 1 ≤ j → P j) (j : Nat) (hj : index ≤ j) : P j := by
        rcases Nat.eq_or_lt_of_le hj with rfl | hlt
        · exact hfirst
        · exact hmore j hlt
      by_cases hlast : index ≥ 1199
      · rw [if_pos hlast]
        refine Or.inl ⟨_, rfl, fun i hi hlt => ?_⟩
        obtain rfl : i = index := by omega
        exact not_lt.mp hcoming
      · rw [if_neg hlast]
        dsimp only
        rcases @ih (index + 1) (by omega) (by omega) with ⟨next, hrun, hall⟩ | ⟨i, hi, hlt, hrun, hnext, hall⟩
        · exact Or.inl ⟨next, hrun, hbefore (fun _ => not_lt.mp hcoming) fun i hi hlt => hall i hi hlt⟩
        · exact Or.inr ⟨i, by omega, hlt, hrun, hnext, hbefore (fun _ => not_lt.mp hcoming) fun j hj hlt => hall j hj hlt⟩

theorem coming_months (h : reminder.Valid) (hnow : now.Valid) (hrepeat : reminder.repeats = .monthly) :
    reminder.coming now = {time | ∃ i < 1200,
      (monthIndex reminder.toDate < i ∧ minuteStamp now < minuteStamp (reminder.inMonth i).toDateTime) ∧ time = (reminder.inMonth i).toDateTime} := by
  have hclamp (year month : Nat) : min reminder.repeatDay (daysInMonth year month) = clampDay reminder.repeatDay year month := by
    rw [clampDay]
    split <;> omega
  have hseries (time : DateTime) : time ∈ reminder.series ↔ time.Valid ∧ time.hour = reminder.hour ∧ time.minute = reminder.minute ∧
      monthIndex reminder.toDate < monthIndex time.toDate ∧ time.day = clampDay reminder.repeatDay time.year time.month := by
    rw [← hclamp]
    simp [Reminder.series, hrepeat]
  ext time
  constructor
  · rintro ⟨hmem, hafter_now, -⟩
    obtain ⟨hvalid, hhour, hminute, hmonth, hday⟩ := (hseries time).mp hmem
    have htime : time = (reminder.inMonth (monthIndex time.toDate)).toDateTime := by
      have hdate := (eq_monthDay_iff hvalid.1).mpr hday
      rw [Reminder.inMonth, ← hdate, ← hhour, ← hminute]
    rw [le_iff_minuteStamp hvalid hnow, not_le] at hafter_now
    exact ⟨monthIndex time.toDate, hvalid.1.monthIndex_lt, ⟨hmonth, htime ▸ hafter_now⟩, htime⟩
  · rintro ⟨i, hi, ⟨hmonth, hcoming⟩, rfl⟩
    have hvalid := inMonth_valid h hi
    have hindex : monthIndex (reminder.inMonth i).toDate = i := monthIndex_monthDay i
    have hday := (eq_monthDay_iff hvalid.1).mp (congrArg (monthDay reminder.repeatDay) hindex.symm)
    have hlater : monthIndex reminder.toDate < monthIndex (reminder.inMonth i).toDate := hmonth.trans_eq hindex.symm
    refine ⟨(hseries _).mpr ⟨hvalid, rfl, rfl, hlater, hday⟩, ?_, ?_⟩
    · rw [le_iff_minuteStamp hvalid hnow, not_le]
      exact hcoming
    · rw [le_iff_minuteStamp hvalid h.due, not_le, minuteStamp_lt_iff h.due hvalid]
      exact Or.inl (ordinal_lt_monthDay h.repeatDay.1 h.due.1 hmonth hi)

theorem advanceMonths_right (h : reminder.Valid) (hnow : now.Valid) (hrepeat : reminder.repeats = .monthly) : AdvancesRight reminder now := by
  have hcoming := coming_months h hnow hrepeat
  have hindex := h.due.1.monthIndex_lt
  have hrun : advanceRepeat (some now) reminder = if monthIndex reminder.toDate ≥ 1199 then (false, reminder) else
      advanceMonths now 1200 (reminder.inMonth (monthIndex reminder.toDate + 1)) := by
    have hnone : reminder.repeats ≠ .none := by rw [hrepeat]; decide
    have hdays : ¬(reminder.repeats = .daily ∨ reminder.repeats = .weekly) := by rw [hrepeat]; decide
    rw [advanceRepeat, if_neg hnone, if_neg hdays, addMonth_eq h.repeatDay.1]
    by_cases hlast : monthIndex reminder.toDate ≥ 1199
    · rw [if_pos hlast, if_pos hlast]
    · rw [if_neg hlast, if_neg hlast]
  by_cases hlast : monthIndex reminder.toDate ≥ 1199
  · rw [if_pos hlast] at hrun
    rw [advancesRight_false hrun, hcoming, Following.empty_iff]
    rintro i hi ⟨hmonth, -⟩
    omega
  · rw [if_neg hlast] at hrun
    rcases advanceMonths_eq now h.repeatDay.1 1200 (monthIndex reminder.toDate + 1) (by omega) (by omega) with
      ⟨next, hnone, hall⟩ | ⟨i, hi, hlt, hsome, hnext, hall⟩
    · rw [advancesRight_false (hrun.trans hnone), hcoming, Following.empty_iff]
      rintro i hi ⟨hmonth, hcomes⟩
      exact absurd hcomes (not_lt.mpr (hall i hmonth hi))
    · rw [advancesRight_true (hrun.trans hsome), hcoming, (inMonth_following h).isLeast_iff hlt]
      refine ⟨⟨hi, hnext⟩, fun j hj hcomes => ?_⟩
      by_contra hlt_i
      exact absurd hcomes.2 (not_lt.mpr (hall j hcomes.1 (not_le.mp hlt_i)))

/-! ### All repeats -/

/-- A daily or weekly time of today is still to come, but the last time was more than one interval ago. -/
def SkipsToday (reminder : Reminder) (now : DateTime) : Prop :=
  reminder.repeats = .daily ∧ LaterToday reminder now 1 ∨ reminder.repeats = .weekly ∧ LaterToday reminder now 7

/-- A repeated reminder goes on to its next time, unless that one is later today and days were missed. -/
theorem advanceRepeat_right (h : reminder.Valid) (hrepeat : reminder.repeats ≠ .none) (hnow : now.Valid) :
    AdvancesRight reminder now ↔ ¬SkipsToday reminder now := by
  cases hkind : reminder.repeats with
  | none => exact absurd hkind hrepeat
  | daily =>
    rw [advanceDays_right h.due hnow (Or.inl ⟨hkind, rfl⟩)]
    simp [SkipsToday, hkind]
  | weekly =>
    rw [advanceDays_right h.due hnow (Or.inr ⟨hkind, rfl⟩)]
    simp [SkipsToday, hkind]
  | monthly => exact iff_of_true (advanceMonths_right h hnow hkind) (by simp [SkipsToday, hkind])

/-- Due at noon on each day, from the first of May 2026 on. -/
def noon : Reminder :=
  { year := 2026, month := 5, day := 1, hour := 12, minute := 0, title := ascii "Tea", done := false, notified := false, repeats := .daily, repeatDay := 1 }

theorem noon_valid : noon.Valid := ⟨by decide, by decide, by decide⟩

theorem advanceRepeat_right_sample : AdvancesRight noon ⟨⟨2026, 5, 4⟩, 13, 0⟩ ↔ ¬SkipsToday noon ⟨⟨2026, 5, 4⟩, 13, 0⟩ :=
  advanceRepeat_right noon_valid (by decide) (by decide)

/-- On the morning of May 4 the reminder goes on to May 5, past noon of the same day. -/
theorem advanceRepeat_past_noon : ¬∀ reminder now, Reminder.Valid reminder → reminder.repeats ≠ .none → now.Valid → AdvancesRight reminder now := by
  intro h
  have hright := h noon ⟨⟨2026, 5, 4⟩, 8, 0⟩ noon_valid (by decide) (by decide)
  rw [advanceDays_right noon_valid.due (by decide) (Or.inl ⟨rfl, rfl⟩)] at hright
  exact hright ⟨by decide, by decide, by decide⟩

end
end ZenovOS.Productivity

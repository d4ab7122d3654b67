import ZenovOS.Productivity.Dates

/-! The day numbers count the days from 2000-01-01 to 2099-12-31 in their order, and every number up to the last one is that of one date. -/

namespace ZenovOS.Productivity
open Blocks

/-- The length of a month, counted from January 2000 on. -/
def monthLength (index : Nat) : Nat := daysInMonth (2000 + index / 12) (index % 12 + 1)

theorem daysInMonth_bounds (year month : Nat) : 28 ≤ daysInMonth year month ∧ daysInMonth year month ≤ 31 := by
  rw [daysInMonth]
  split
  · omega
  · split
    · omega
    · have hmonth : month = 1 ∨ month = 2 ∨ month = 3 ∨ month = 4 ∨ month = 5 ∨ month = 6 ∨ month = 7 ∨ month = 8 ∨ month = 9 ∨
          month = 10 ∨ month = 11 ∨ month = 12 := by omega
      rcases hmonth with rfl | rfl | rfl | rfl | rfl | rfl | rfl | rfl | rfl | rfl | rfl | rfl <;> decide

theorem total_daysInMonth (year : Nat) : total (daysInMonth year) 1 12 = daysInYear year := by
  cases h : isLeap year <;> simp [total, daysInMonth, daysInYear, h]

theorem total_monthLength (years : Nat) : total monthLength 0 (12 * years) = total daysInYear 2000 years := by
  have hyear (k : Nat) : total monthLength (0 + 12 * k) 12 = daysInYear (2000 + k) := by
    rw [← total_daysInMonth]
    refine total_congr fun i hi => ?_
    have hquotient : (0 + 12 * k + i) / 12 = k := by omega
    have hremainder : (0 + 12 * k + i) % 12 = i := by omega
    rw [monthLength, hquotient, hremainder, Nat.add_comm i]
  rw [total_mul hyear]
  exact total_congr fun i _ => by rw [Nat.zero_add]

section
variable {date date' : Date}

theorem monthLength_monthIndex (h : date.Valid) : monthLength (monthIndex date) = daysInMonth date.year date.month := by
  obtain ⟨hyear, -, hmonth, hmonth', -, -⟩ := h
  have hquotient : 2000 + monthIndex date / 12 = date.year := by
    unfold monthIndex
    omega
  have hremainder : monthIndex date % 12 + 1 = date.month := by
    unfold monthIndex
    omega
  rw [monthLength, hquotient, hremainder]

theorem Date.Valid.place (h : date.Valid) : date.day - 1 < monthLength (0 + monthIndex date) := by
  rw [Nat.zero_add, monthLength_monthIndex h]
  obtain ⟨-, -, -, -, hday, hday'⟩ := h
  omega

theorem Date.Valid.monthIndex_lt (h : date.Valid) : monthIndex date < 1200 := by
  obtain ⟨_, _, _, _, -, -⟩ := h
  unfold monthIndex
  omega

theorem ordinal_eq (h : date.Valid) : ordinal date = total monthLength 0 (monthIndex date) + (date.day - 1) := by
  have hmonths : total monthLength (12 * (date.year - 2000)) (date.month - 1) = total (daysInMonth date.year) 1 (date.month - 1) := by
    obtain ⟨hyear, -, hmonth, hmonth', -, -⟩ := h
    refine total_congr fun i hi => ?_
    have hquotient : 2000 + (12 * (date.year - 2000) + i) / 12 = date.year := by omega
    have hremainder : (12 * (date.year - 2000) + i) % 12 = i := by omega
    rw [monthLength, hquotient, hremainder, Nat.add_comm i]
  rw [ordinal, monthIndex, Nat.mul_comm, total_add, total_monthLength, Nat.zero_add, hmonths]

theorem ordinal_lt_iff (h : date.Valid) (h' : date'.Valid) :
    ordinal date < ordinal date' ↔ monthIndex date < monthIndex date' ∨ monthIndex date = monthIndex date' ∧ date.day < date'.day := by
  rw [ordinal_eq h, ordinal_eq h', number_lt_iff h.place h'.place]
  obtain ⟨-, -, -, -, hday, -⟩ := h
  obtain ⟨-, -, -, -, hday', -⟩ := h'
  omega

theorem ordinal_inj (h : date.Valid) (h' : date'.Valid) : ordinal date = ordinal date' ↔ date = date' := by
  refine ⟨fun heq => ?_, congrArg ordinal⟩
  rw [ordinal_eq h, ordinal_eq h'] at heq
  obtain ⟨hindex, hplace⟩ := number_inj h.place h'.place heq
  obtain ⟨_, _, _, _, _, -⟩ := h
  obtain ⟨_, _, _, _, _, -⟩ := h'
  unfold monthIndex at hindex
  cases date
  cases date'
  rw [Date.mk.injEq]
  dsimp only at *
  omega

theorem maximumOrdinal_eq : maximumOrdinal = 36524 := by decide

theorem total_months : total monthLength 0 1200 = 36525 := by
  rw [show 1200 = 12 * 100 from rfl, total_monthLength]
  decide

theorem ordinal_le_maximum (h : date.Valid) : ordinal date ≤ maximumOrdinal := by
  have hlt := place_lt h.place h.monthIndex_lt
  rw [← ordinal_eq h, total_months] at hlt
  rw [maximumOrdinal_eq]
  omega

theorem dateFromOrdinal_ordinal (h : date.Valid) : dateFromOrdinal (ordinal date) = date := by
  obtain ⟨hyear, hyear', hmonth, hmonth', hday, hday'⟩ := h
  have hin_month : date.day - 1 < daysInMonth date.year (1 + (date.month - 1)) := by
    rw [show 1 + (date.month - 1) = date.month by omega]
    omega
  have hin_year : total (daysInMonth date.year) 1 (date.month - 1) + (date.day - 1) < daysInYear (2000 + (date.year - 2000)) := by
    rw [show 2000 + (date.year - 2000) = date.year by omega, ← total_daysInMonth]
    exact place_lt hin_month (by omega)
  rw [dateFromOrdinal, ordinal, Nat.add_assoc, locate_total (by omega) hin_year]
  dsimp only
  rw [show 2000 + (date.year - 2000) = date.year by omega, locate_total (by omega) hin_month]
  dsimp only
  rw [show 1 + (date.month - 1) = date.month by omega, show date.day - 1 + 1 = date.day by omega]

theorem exists_ordinal {n : Nat} (h : n ≤ maximumOrdinal) : ∃ date, date.Valid ∧ ordinal date = n := by
  obtain ⟨index, hindex, place, hplace, hn⟩ : ∃ k < 1200, ∃ place < monthLength (0 + k), n = total monthLength 0 k + place := by
    refine exists_place ?_
    rw [total_months]
    rw [maximumOrdinal_eq] at h
    omega
  rw [Nat.zero_add] at hplace
  let date : Date := ⟨2000 + index / 12, index % 12 + 1, place + 1⟩
  have hvalid : date.Valid :=
    ⟨Nat.le_add_right .., (by omega : 2000 + index / 12 ≤ 2099), Nat.le_add_left .., (by omega : index % 12 + 1 ≤ 12), Nat.le_add_left .., hplace⟩
  have hmonth : monthIndex date = index := by
    show (2000 + index / 12 - 2000) * 12 + (index % 12 + 1 - 1) = index
    omega
  refine ⟨date, hvalid, ?_⟩
  rw [ordinal_eq hvalid, hmonth, hn]
  rfl

theorem dateFromOrdinal_valid {n : Nat} (h : n ≤ maximumOrdinal) : (dateFromOrdinal n).Valid ∧ ordinal (dateFromOrdinal n) = n := by
  obtain ⟨date, hvalid, rfl⟩ := exists_ordinal h
  rw [dateFromOrdinal_ordinal hvalid]
  exact ⟨hvalid, rfl⟩

end

/-! ### One day of each month -/

/-- The same day in each month, counted from January 2000 on. -/
def monthDay (anchor index : Nat) : Date :=
  { year := 2000 + index / 12, month := index % 12 + 1, day := clampDay anchor (2000 + index / 12) (index % 12 + 1) }

section
variable {anchor : Nat}

theorem clampDay_bounds (h : 1 ≤ anchor) (year month : Nat) : 1 ≤ clampDay anchor year month ∧ clampDay anchor year month ≤ daysInMonth year month := by
  have hlength := (daysInMonth_bounds year month).1
  rw [clampDay]
  split <;> omega

theorem monthDay_valid (h : 1 ≤ anchor) {index : Nat} (hindex : index < 1200) : (monthDay anchor index).Valid := by
  obtain ⟨hlow, hhigh⟩ := clampDay_bounds h (2000 + index / 12) (index % 12 + 1)
  exact ⟨Nat.le_add_right .., (by omega : 2000 + index / 12 ≤ 2099), Nat.le_add_left .., (by omega : index % 12 + 1 ≤ 12), hlow, hhigh⟩

theorem monthIndex_monthDay (index : Nat) : monthIndex (monthDay anchor index) = index := by
  show (2000 + index / 12 - 2000) * 12 + (index % 12 + 1 - 1) = index
  omega

theorem monthDay_monthIndex {date : Date} (h : date.Valid) :
    monthDay anchor (monthIndex date) = { date with day := clampDay anchor date.year date.month } := by
  obtain ⟨_, _, _, _, -, -⟩ := h
  have hyear : 2000 + monthIndex date / 12 = date.year := by
    unfold monthIndex
    omega
  have hmonth : monthIndex date % 12 + 1 = date.month := by
    unfold monthIndex
    omega
  rw [monthDay, hyear, hmonth]

theorem eq_monthDay_iff {date : Date} (h : date.Valid) : date = monthDay anchor (monthIndex date) ↔ date.day = clampDay anchor date.year date.month := by
  rw [monthDay_monthIndex h]
  cases date
  simp

theorem monthDay_lt (h : 1 ≤ anchor) {i j : Nat} (hij : i < j) (hj : j < 1200) : ordinal (monthDay anchor i) < ordinal (monthDay anchor j) := by
  rw [ordinal_lt_iff (monthDay_valid h (hij.trans hj)) (monthDay_valid h hj), monthIndex_monthDay, monthIndex_monthDay]
  exact Or.inl hij

theorem ordinal_lt_monthDay (h : 1 ≤ anchor) {date : Date} (hdate : date.Valid) {i : Nat} (hi : monthIndex date < i) (hlt : i < 1200) :
    ordinal date < ordinal (monthDay anchor i) := by
  rw [ordinal_lt_iff hdate (monthDay_valid h hlt), monthIndex_monthDay]
  exact Or.inl hi

theorem monthDay_lt_ordinal (h : 1 ≤ anchor) {date : Date} (hdate : date.Valid) {i : Nat} (hi : i < monthIndex date) :
    ordinal (monthDay anchor i) < ordinal date := by
  rw [ordinal_lt_iff (monthDay_valid h (hi.trans hdate.monthIndex_lt)) hdate, monthIndex_monthDay]
  exact Or.inl hi

end

/-! ### The order of the dates -/

/-- Earlier in the calendar, or the same date. -/
def Date.NotAfter (date date' : Date) : Prop :=
  date.year < date'.year ∨ date.year = date'.year ∧ (date.month < date'.month ∨ date.month = date'.month ∧ date.day ≤ date'.day)

instance : LE Date := ⟨Date.NotAfter⟩

theorem le_iff_ordinal {date date' : Date} (h : date.Valid) (h' : date'.Valid) : date ≤ date' ↔ ordinal date ≤ ordinal date' := by
  rw [← not_lt, ordinal_lt_iff h' h]
  show Date.NotAfter date date' ↔ _
  obtain ⟨_, _, _, _, _, -⟩ := h
  obtain ⟨_, _, _, _, _, -⟩ := h'
  unfold Date.NotAfter monthIndex
  omega

/-! ### Minutes -/

section
variable {time time' : DateTime}

theorem minuteStamp_lt_iff (h : time.Valid) (h' : time'.Valid) : minuteStamp time < minuteStamp time' ↔
    ordinal time.toDate < ordinal time'.toDate ∨
      ordinal time.toDate = ordinal time'.toDate ∧ time.hour * 60 + time.minute < time'.hour * 60 + time'.minute := by
  obtain ⟨-, hhour, hminute⟩ := h
  obtain ⟨-, hhour', hminute'⟩ := h'
  unfold minuteStamp
  omega

/-- Earlier, or the same time. -/
def DateTime.NotAfter (time time' : DateTime) : Prop :=
  time.toDate ≤ time'.toDate ∧ (time.toDate = time'.toDate → time.hour < time'.hour ∨ time.hour = time'.hour ∧ time.minute ≤ time'.minute)

instance : LE DateTime := ⟨DateTime.NotAfter⟩

theorem le_iff_minuteStamp (h : time.Valid) (h' : time'.Valid) : time ≤ time' ↔ minuteStamp time ≤ minuteStamp time' := by
  rw [← not_lt, minuteStamp_lt_iff h' h]
  show DateTime.NotAfter time time' ↔ _
  rw [DateTime.NotAfter, le_iff_ordinal h.1 h'.1, ← ordinal_inj h.1 h'.1]
  obtain ⟨-, _, _⟩ := h
  obtain ⟨-, _, _⟩ := h'
  omega

theorem addMinutes_days (h : time.Valid) {days : Nat} (hdays : ordinal time.toDate + days ≤ maximumOrdinal) :
    addMinutes time (days * 1440 : Nat) = { time with toDate := dateFromOrdinal (ordinal time.toDate + days) } := by
  obtain ⟨-, hhour, hminute⟩ := h
  have hstamp : (minuteStamp time + (days * 1440 : Nat) : Int).toNat = (ordinal time.toDate + days) * 1440 + (time.hour * 60 + time.minute) := by
    unfold minuteStamp
    omega
  have hquotient : ((ordinal time.toDate + days) * 1440 + (time.hour * 60 + time.minute)) / 1440 = ordinal time.toDate + days := by omega
  have hremainder : ((ordinal time.toDate + days) * 1440 + (time.hour * 60 + time.minute)) % 1440 = time.hour * 60 + time.minute := by omega
  have hhours : (time.hour * 60 + time.minute) / 60 = time.hour := by omega
  have hminutes : (time.hour * 60 + time.minute) % 60 = time.minute := by omega
  have hfits : ¬((days * 1440 : Nat) > (0 : Int) ∧ (minuteStamp time : Int) > maximumOrdinal * 1440 + 1439 - (days * 1440 : Nat)) := by
    unfold minuteStamp
    omega
  rw [addMinutes]
  dsimp only
  rw [if_neg hfits, if_neg (by omega), hstamp, hquotient, hremainder, hhours, hminutes]

end
end ZenovOS.Productivity

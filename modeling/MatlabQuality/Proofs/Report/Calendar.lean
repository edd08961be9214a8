import Mathlib.Algebra.BigOperators.Intervals
import Mathlib.Algebra.Order.BigOperators.Group.Finset
import Mathlib.Data.Nat.Find
import Mathlib.Order.Interval.Finset.Nat
import Mathlib.Tactic.IntervalCases
import MatlabQuality.Report.Timestamp

/-!
# Days and dates

Days are numbered from the first day of the year nought: the days of all years before, the days of
all months before, and the days before in the month.  Years and months are not empty, so each number
is found in one month of one year, and a date is found from the number of its day.

A clock finds its date by arithmetic alone.  It takes years to start in March: then the day that
only leap years have is the last one of its year, of its four years, of its century but for the
fourth, and of its era of four hundred years, and months follow a pattern of five.

## Main definitions

* `startOf`, `partAt` — where a part starts in a row of parts, and which part a place is in.
* `Timestamp.dayNumber`, `Timestamp.dateAt` — the number of a day, and the date of a number.
* `Timestamp.IsInEra`, `Timestamp.IsMarchDate` — a day in an era, and a day of a year from March.

## Main statements

* `partAt_startOf_add` — a place in a part is found in that part.
* `Timestamp.dateAt_dayNumber` — a date is found from the number of its day.
* `Timestamp.dateOfDay_spec` — the date that a clock finds is the date of its day.
-/

namespace MatlabQuality

/-! ## Parts in a row -/

/-- Where a part starts in a row of parts: the sizes of all parts before it. -/
def startOf (size : ℕ → ℕ) (first part : ℕ) : ℕ :=
  ∑ k ∈ Finset.Ico first part, size k

/-- The last part that starts at a place or before it. -/
def partAt (size : ℕ → ℕ) (first place : ℕ) : ℕ :=
  Nat.findGreatest (fun part => startOf size first part ≤ place) (first + place)

section Parts

variable {size : ℕ → ℕ} {first part place : ℕ}

theorem startOf_succ (h : first ≤ part) :
    startOf size first (part + 1) = startOf size first part + size part :=
  Finset.sum_Ico_succ_top h size

theorem startOf_mono {later : ℕ} (h : part ≤ later) :
    startOf size first part ≤ startOf size first later :=
  Finset.sum_le_sum_of_subset (Finset.Ico_subset_Ico_right h)

/-- Parts that are not empty are no more than the places before them. -/
theorem le_add_startOf (hsize : ∀ k, 0 < size k) (h : first ≤ part) :
    part ≤ first + startOf size first part := by
  induction part, h using Nat.le_induction with
  | base => exact Nat.le_add_right _ _
  | succ part h ih =>
    rw [startOf_succ h]
    have := hsize part
    omega

/-- **A place in a part is found in that part.** -/
theorem partAt_startOf_add (hsize : ∀ k, 0 < size k) (h : first ≤ part)
    (hplace : place < size part) : partAt size first (startOf size first part + place) = part := by
  rw [partAt, Nat.findGreatest_eq_iff]
  refine ⟨?_, fun _ => Nat.le_add_right _ _, fun later hlater _ hstart => ?_⟩
  · have := le_add_startOf hsize h
    omega
  · -- A later part starts behind the whole part.
    have hnext : startOf size first (part + 1) ≤ startOf size first later := startOf_mono hlater
    rw [startOf_succ h] at hnext
    omega

end Parts

namespace Timestamp

variable {year month day index place inEra century cycle inCycle : ℕ}

/-! ## Numbers of days -/

/-- The days of a year. -/
def daysOfYear (year : ℕ) : ℕ :=
  startOf (daysIn year) 1 13

/-- The number of a day, counted from the first day of the year nought. -/
def dayNumber (year month day : ℕ) : ℕ :=
  startOf daysOfYear 0 year + (startOf (daysIn year) 1 month + (day - 1))

/-- The date of a day, as year, month and day, from its number. -/
def dateAt (number : ℕ) : ℕ × ℕ × ℕ :=
  let year := partAt daysOfYear 0 number
  let inYear := number - startOf daysOfYear 0 year
  let month := partAt (daysIn year) 1 inYear
  (year, month, inYear - startOf (daysIn year) 1 month + 1)

/-- A day that the calendar has. -/
structure IsDate (year month day : ℕ) : Prop where
  month_bounds : 1 ≤ month ∧ month ≤ 12
  day_bounds : 1 ≤ day ∧ day ≤ daysIn year month

theorem daysIn_pos (year month : ℕ) : 0 < daysIn year month := by
  unfold daysIn
  split
  · split <;> decide
  all_goals decide

theorem daysOfYear_pos (year : ℕ) : 0 < daysOfYear year := by
  have h := daysIn_pos year 12
  rw [daysOfYear, startOf_succ (by decide : 1 ≤ 12)]
  omega

/-- A day of a month is a day of its year. -/
theorem startOf_daysIn_add_lt (hmonth : 1 ≤ month ∧ month ≤ 12)
    (hplace : place < daysIn year month) :
    startOf (daysIn year) 1 month + place < daysOfYear year := by
  calc startOf (daysIn year) 1 month + place
      < startOf (daysIn year) 1 (month + 1) := by
        rw [startOf_succ hmonth.1]
        exact Nat.add_lt_add_left hplace _
    _ ≤ daysOfYear year := startOf_mono (Nat.succ_le_succ hmonth.2)

/-- **A date is found from the number of its day.** -/
theorem dateAt_dayNumber (h : IsDate year month day) :
    dateAt (dayNumber year month day) = (year, month, day) := by
  obtain ⟨hmonth, hday⟩ := h
  have hplace : day - 1 < daysIn year month := by omega
  have hyear : partAt daysOfYear 0 (dayNumber year month day) = year :=
    partAt_startOf_add daysOfYear_pos (Nat.zero_le _) (startOf_daysIn_add_lt hmonth hplace)
  have hinYear : dayNumber year month day - startOf daysOfYear 0 year =
      startOf (daysIn year) 1 month + (day - 1) := Nat.add_sub_cancel_left ..
  have hfound : partAt (daysIn year) 1 (startOf (daysIn year) 1 month + (day - 1)) = month :=
    partAt_startOf_add (daysIn_pos year) hmonth.1 hplace
  simp only [dateAt, hyear, hinYear, hfound, Nat.add_sub_cancel_left]
  rw [Nat.sub_add_cancel hday.1]

/-! ## Leap years -/

theorem isLeapYear_iff : isLeapYear year = true ↔ 4 ∣ year ∧ (¬ 100 ∣ year ∨ 400 ∣ year) := by
  simp [isLeapYear, Nat.dvd_iff_mod_eq_zero]

theorem daysOfYear_eq (year : ℕ) : daysOfYear year = daysIn year 2 + 337 := by
  simp only [daysOfYear, startOf, Finset.sum_Ico_succ_top, Finset.Ico_self, Finset.sum_empty,
    Nat.reduceLeDiff, Nat.reduceAdd, daysIn]
  omega

/-- Every fourth year has a day more, but of the years that end a century only every fourth. -/
theorem startOf_daysOfYear_succ (year : ℕ) :
    startOf daysOfYear 0 (year + 1) + year / 100 =
      365 * year + 366 + year / 4 + year / 400 := by
  induction year with
  | zero => decide
  | succ year ih =>
    have hfour : 100 ∣ year + 1 → 4 ∣ year + 1 := Nat.dvd_trans (by decide)
    have hhundred : 400 ∣ year + 1 → 100 ∣ year + 1 := Nat.dvd_trans (by decide)
    rw [startOf_succ (Nat.zero_le _), daysOfYear_eq, daysIn, Nat.succ_div, Nat.succ_div,
      Nat.succ_div]
    by_cases h400 : 400 ∣ year + 1
    · have h100 := hhundred h400
      have hleap : isLeapYear (year + 1) = true := isLeapYear_iff.2 ⟨hfour h100, .inr h400⟩
      rw [if_pos hleap, if_pos (hfour h100), if_pos h100, if_pos h400]
      omega
    · by_cases h100 : 100 ∣ year + 1
      · have hleap : ¬ isLeapYear (year + 1) = true :=
          fun h => (isLeapYear_iff.1 h).2.elim (· h100) h400
        rw [if_neg hleap, if_pos (hfour h100), if_pos h100, if_neg h400]
        omega
      · have hleap : isLeapYear (year + 1) = true ↔ 4 ∣ year + 1 :=
          isLeapYear_iff.trans (and_iff_left (.inl h100))
        simp only [hleap, if_neg h100, if_neg h400]
        split <;> omega

/-! ## Years from March -/

/-- From March on the lengths of the months have a pattern of five. -/
theorem daysIn_add_three (year : ℕ) (h : index < 10) :
    daysIn year (index + 3) + (153 * index + 2) / 5 = (153 * (index + 1) + 2) / 5 := by
  interval_cases index <;> rfl

theorem startOf_daysIn_add_three (year : ℕ) (h : index ≤ 10) :
    startOf (daysIn year) 1 (index + 3) + 306 = daysOfYear year + (153 * index + 2) / 5 := by
  induction index with
  | zero =>
    have hmarch : startOf (daysIn year) 1 3 = 31 + daysIn year 2 := startOf_succ (by decide)
    rw [daysOfYear_eq, Nat.zero_add, hmarch]
    omega
  | succ index ih =>
    have hstart := ih (Nat.le_of_succ_le h)
    have hsize := daysIn_add_three year (Nat.lt_of_succ_le h)
    rw [Nat.add_right_comm, startOf_succ (by omega)]
    omega

/-- A day of a year from March: its month, counted from March, and its place in the month. -/
structure IsMarchDate (year index place : ℕ) : Prop where
  index_lt : index < 12
  place_lt : (153 * index + 2) / 5 + place < (153 * (index + 1) + 2) / 5
  /-- The pattern of the months goes on past the end of February. -/
  leapDay : index = 11 → place < 28 ∨ place = 28 ∧ isLeapYear (year + 1) = true

/-- The date of a day of a year from March, whose last two months are in the next year. -/
theorem IsMarchDate.isDate (h : IsMarchDate year index place) :
    let month := if index < 10 then index + 3 else index - 9
    let year' := if month ≤ 2 then year + 1 else year
    IsDate year' month (place + 1) ∧
      dayNumber year' month (place + 1) + 306 =
        startOf daysOfYear 0 (year + 1) + ((153 * index + 2) / 5 + place) := by
  obtain ⟨hindex, hplace, hleap⟩ := h
  dsimp only
  by_cases hmarch : index < 10
  · have hmonth : ¬ index + 3 ≤ 2 := by omega
    rw [if_pos hmarch, if_neg hmonth]
    have hsize := daysIn_add_three year hmarch
    refine ⟨⟨by omega, by omega⟩, ?_⟩
    rw [dayNumber, startOf_succ (Nat.zero_le _), Nat.add_sub_cancel]
    have hstart := startOf_daysIn_add_three year hmarch.le
    omega
  · rw [if_neg hmarch, if_pos (by omega)]
    obtain rfl | rfl : index = 10 ∨ index = 11 := by omega
    · have hjanuary : dayNumber (year + 1) (10 - 9) (place + 1) =
          startOf daysOfYear 0 (year + 1) + (0 + place) := rfl
      rw [hjanuary]
      refine ⟨⟨by decide, ?_⟩, by omega⟩
      change 1 ≤ _ ∧ _ ≤ 31
      omega
    · have hfebruary : dayNumber (year + 1) (11 - 9) (place + 1) =
          startOf daysOfYear 0 (year + 1) + (31 + place) := rfl
      rw [hfebruary]
      refine ⟨⟨by decide, by omega, ?_⟩, by omega⟩
      change place + 1 ≤ if isLeapYear (year + 1) = true then 29 else 28
      rcases hleap rfl with hlt | ⟨rfl, hyear⟩
      · split <;> omega
      · rw [if_pos hyear]

/-! ## Eras -/

/-- A day of an era, which has four centuries: its century, its four years in the century, its year
of these and its place in the year. -/
structure IsInEra (century cycle inCycle place inEra : ℕ) : Prop where
  inEra_eq : inEra = 36524 * century + 1461 * cycle + 365 * inCycle + place
  century_lt : century < 4
  cycle_lt : cycle < 25
  inCycle_lt : inCycle < 4
  place_le : place ≤ 365
  /-- A leap day is the last one of four years, and none ends a century but the fourth. -/
  leapDay : place = 365 → inCycle = 3 ∧ (cycle = 24 → century = 3)

theorem exists_isInEra (h : inEra < 146097) :
    ∃ century cycle inCycle place, IsInEra century cycle inCycle place inEra := by
  obtain ⟨century, hcentury⟩ : ∃ n, n = min 3 (inEra / 36524) := ⟨_, rfl⟩
  obtain ⟨cycle, hcycle⟩ : ∃ n, n = (inEra - 36524 * century) / 1461 := ⟨_, rfl⟩
  obtain ⟨inCycle, hinCycle⟩ : ∃ n, n = min 3 ((inEra - 36524 * century - 1461 * cycle) / 365) :=
    ⟨_, rfl⟩
  refine ⟨century, cycle, inCycle, inEra - 36524 * century - 1461 * cycle - 365 * inCycle,
    ?_, ?_, ?_, ?_, ?_, ?_⟩
  all_goals omega

namespace IsInEra

/-- The days of an era that would end a cycle, a century or the era one day too early are taken out
before years are counted. -/
theorem yearOfEra_eq (h : IsInEra century cycle inCycle place inEra) :
    (inEra - inEra / 1460 + inEra / 36524 - inEra / 146096) / 365 =
      100 * century + 4 * cycle + inCycle := by
  obtain ⟨heq, hcentury, hcycle, hinCycle, hplace, hleap⟩ := h
  have hlast : inEra < 36524 * (century + 1) ∨ inEra = 146096 ∧ century = 3 := by
    by_cases hleapDay : place = 365
    · obtain ⟨rfl, hlast⟩ := hleap hleapDay
      omega
    · omega
  have hcenturies : inEra / 36524 = century + inEra / 146096 := by
    rcases hlast with hlt | ⟨rfl, rfl⟩
    · have hcount : inEra / 36524 = century := Nat.div_eq_of_lt_le (by omega) (by omega)
      have hera : inEra / 146096 = 0 := Nat.div_eq_of_lt (by omega)
      omega
    · decide
  obtain ⟨extra, hextra⟩ : ∃ n, n = (24 * century + cycle + 365 * inCycle + place) / 1460 :=
    ⟨_, rfl⟩
  have hcycles : inEra / 1460 = 25 * century + cycle + extra := by
    have hsplit : inEra =
        1460 * (25 * century + cycle) + (24 * century + cycle + 365 * inCycle + place) := by
      rw [heq]
      omega
    rw [hextra, hsplit, Nat.mul_add_div (by decide : 0 < 1460)]
  -- A day too many is taken out only behind the first day of a year, and always on a leap day.
  have hwithin : extra ≤ place ∧ place - extra < 365 := by
    clear heq hlast hcenturies hcycles
    omega
  have hdays : inEra - (25 * century + cycle + extra) + (century + inEra / 146096)
      - inEra / 146096 = 365 * (100 * century + 4 * cycle + inCycle) + (place - extra) := by
    clear hlast hcenturies hcycles hextra hleap
    rw [← Nat.add_assoc, Nat.add_sub_cancel]
    omega
  rw [hcycles, hcenturies, hdays, Nat.mul_add_div (by decide : 0 < 365),
    Nat.div_eq_of_lt hwithin.2, Nat.add_zero]

/-- The days of the era before the year. -/
theorem days_eq (h : IsInEra century cycle inCycle place inEra) :
    365 * (100 * century + 4 * cycle + inCycle) + (100 * century + 4 * cycle + inCycle) / 4
      - (100 * century + 4 * cycle + inCycle) / 100 =
      36524 * century + 1461 * cycle + 365 * inCycle := by
  obtain ⟨-, hcentury, hcycle, hinCycle, -, -⟩ := h
  omega

theorem isMarchDate (h : IsInEra century cycle inCycle place inEra) (era : ℕ) :
    IsMarchDate (100 * century + 4 * cycle + inCycle + era * 400) ((5 * place + 2) / 153)
      (place - (153 * ((5 * place + 2) / 153) + 2) / 5) := by
  obtain ⟨-, hcentury, hcycle, hinCycle, hplace, hleap⟩ := h
  refine ⟨by omega, by omega, fun hindex => ?_⟩
  by_cases hleapDay : place = 365
  · obtain ⟨rfl, hlast⟩ := hleap hleapDay
    exact .inr ⟨by omega, isLeapYear_iff.2 ⟨by omega, by omega⟩⟩
  · exact .inl (by omega)

/-- Where the year after a year from March starts. -/
theorem startOf_year (h : IsInEra century cycle inCycle place inEra) (era : ℕ) :
    startOf daysOfYear 0 (100 * century + 4 * cycle + inCycle + era * 400 + 1) + place =
      146097 * era + inEra + 366 := by
  have hstart := startOf_daysOfYear_succ (100 * century + 4 * cycle + inCycle + era * 400)
  obtain ⟨heq, hcentury, hcycle, hinCycle, -, -⟩ := h
  omega

end IsInEra

/-! ## Clocks -/

theorem dayNumber_first (year : ℕ) : dayNumber year 1 1 = startOf daysOfYear 0 year := rfl

theorem dayNumber_epoch : dayNumber 1970 1 1 = 719528 := by
  have hstart := startOf_daysOfYear_succ 1969
  have hyear : 1970 = 1969 + 1 := rfl
  rw [dayNumber_first, hyear]
  omega

/-- **The date that a clock finds is the date of its day**, counted from the start of 1970. -/
theorem dateOfDay_spec {n : ℕ} (h : dateOfDay n = (year, month, day)) :
    IsDate year month day ∧ dayNumber year month day = dayNumber 1970 1 1 + n := by
  have hlt : (n + 719468) % 146097 < 146097 := Nat.mod_lt _ (by decide)
  have hn := Nat.div_add_mod (n + 719468) 146097
  obtain ⟨century, cycle, inCycle, place, hera⟩ := exists_isInEra hlt
  have hplace : (n + 719468) % 146097 - (36524 * century + 1461 * cycle + 365 * inCycle) =
      place := by
    rw [hera.inEra_eq, Nat.add_sub_cancel_left]
  simp only [dateOfDay, hera.yearOfEra_eq, hera.days_eq, hplace] at h
  obtain ⟨hyear, hrest⟩ := Prod.mk.inj h
  obtain ⟨hmonth, hday⟩ := Prod.mk.inj hrest
  obtain ⟨hdate, hnumber⟩ := (hera.isMarchDate ((n + 719468) / 146097)).isDate
  rw [hyear, hmonth, hday] at hdate hnumber
  refine ⟨hdate, ?_⟩
  have hindex : (153 * ((5 * place + 2) / 153) + 2) / 5 ≤ place := by omega
  have hstart := hera.startOf_year ((n + 719468) / 146097)
  rw [Nat.add_sub_cancel' hindex, hstart, hn] at hnumber
  rw [dayNumber_epoch]
  omega

end Timestamp

end MatlabQuality

import MatlabQuality.Proofs.Report.Calendar

/-!
# Instants

A timestamp holds local fields and an offset, and not the instant that it names.  Nothing is lost by
that: the instant is the local time less the offset, and the instant with the offset added is the
local time again, whose minutes are those of one day.  So a timestamp says as much as an instant
with an offset.

## Main definitions

* `Timestamp.instant` — the minute of universal time that a timestamp names.
* `Timestamp.ofInstant` — the timestamp of an instant at an offset.

## Main statements

* `Timestamp.ofInstant_instant` — shifting by the offset and back changes nothing.
* `Timestamp.ofSeconds_eq_ofInstant` — the timestamp of a clock is that of its instant.
-/

namespace MatlabQuality.Timestamp

/-- The minute of universal time that a timestamp names, counted from the start of the year
nought: the local time less the offset. -/
def instant (t : Timestamp) : ℤ :=
  (1440 * dayNumber t.year t.month t.day + (60 * t.hour + t.minute) : ℕ) - t.offset

/-- The timestamp of an instant at an offset, with a second, which is the same at all offsets. -/
def ofInstant (instant : ℤ) (second : ℕ) (offset : ℤ) : Timestamp :=
  let minutes := (instant + offset).toNat
  let (year, month, day) := dateAt (minutes / 1440)
  ⟨year, month, day, minutes % 1440 / 60, minutes % 60, second, offset⟩

/-- **Shifting by the offset and back changes nothing.** -/
theorem ofInstant_instant {t : Timestamp} (h : t.isValid = true) :
    ofInstant t.instant t.second t.offset = t := by
  obtain ⟨year, month, day, hour, minute, second, offset⟩ := t
  simp only [isValid, Bool.and_eq_true, decide_eq_true_eq] at h
  obtain ⟨⟨⟨⟨⟨⟨hmonth, hmonth'⟩, hday⟩, hday'⟩, hhour⟩, hminute⟩, -⟩ := h
  have hdate := dateAt_dayNumber ⟨⟨hmonth, hmonth'⟩, ⟨hday, hday'⟩⟩
  simp only [ofInstant, instant, Int.sub_add_cancel, Int.toNat_natCast]
  generalize dayNumber year month day = number at hdate
  have hnumber : (1440 * number + (60 * hour + minute)) / 1440 = number := by omega
  have hhours : (1440 * number + (60 * hour + minute)) % 1440 / 60 = hour := by omega
  have hminutes : (1440 * number + (60 * hour + minute)) % 60 = minute := by omega
  rw [hnumber, hdate, hhours, hminutes]

/-- A clock names the minutes that it has counted since the start of 1970. -/
theorem instant_ofSeconds (seconds : ℕ) :
    (ofSeconds seconds).isValid = true ∧
      (ofSeconds seconds).instant = (1440 * dayNumber 1970 1 1 + seconds / 60 : ℕ) := by
  obtain ⟨⟨year, month, day⟩, hdate⟩ : ∃ date, dateOfDay (seconds / 86400) = date := ⟨_, rfl⟩
  obtain ⟨⟨hmonth, hday⟩, hnumber⟩ := dateOfDay_spec hdate
  have hclock : ofSeconds seconds = ⟨year, month, day, seconds % 86400 / 3600,
      seconds % 86400 / 60 % 60, seconds % 86400 % 60, 0⟩ := by
    rw [ofSeconds, hdate]
  rw [hclock]
  constructor
  · simp only [isValid, Bool.and_eq_true, decide_eq_true_eq]
    exact ⟨⟨⟨⟨⟨hmonth, hday.1⟩, hday.2⟩, by omega⟩, by omega⟩, by omega⟩
  · generalize dayNumber 1970 1 1 = epoch at hnumber ⊢
    simp only [instant, hnumber, Int.sub_zero]
    congr 1
    omega

/-- **The timestamp of a clock is that of its instant**, in universal time. -/
theorem ofSeconds_eq_ofInstant (seconds : ℕ) :
    ofSeconds seconds =
      ofInstant (1440 * dayNumber 1970 1 1 + seconds / 60 : ℕ) (seconds % 60) 0 := by
  obtain ⟨hvalid, hinstant⟩ := instant_ofSeconds seconds
  have hsecond : (ofSeconds seconds).second = seconds % 60 :=
    Nat.mod_mod_of_dvd seconds (by decide : 60 ∣ 86400)
  have hoffset : (ofSeconds seconds).offset = 0 := rfl
  rw [← hinstant, ← hsecond, ← hoffset, ofInstant_instant hvalid]

/-- The last minute of a leap day that ends a century. -/
example : ofSeconds 951868799 = ⟨2000, 2, 29, 23, 59, 59, 0⟩ := by
  decide

end MatlabQuality.Timestamp

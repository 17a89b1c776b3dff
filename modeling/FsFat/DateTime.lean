import FsFat.DirectoryEntry
import FsFat.Lib.Calendar
import Mathlib.Data.Nat.Bitwise

/-!
FAT timestamps: `libfsfat_date_time.c`. The number of 10 millisecond intervals
since January 1, 1980 is put together from a date, a time, a fraction of the
2-second interval of the time, and for exFAT an offset to UTC. It is compared
here with the count of the days in the calendar.
-/

namespace FsFat

namespace DateTime

/-- The year value of a FAT date, in bits 9 - 15. -/
def year (fatDate : UInt16) : Nat := 1980 + ((fatDate >>> 9) &&& 0x7f).toNat

/-- The month value of a FAT date, in bits 5 - 8. -/
def month (fatDate : UInt16) : Nat := ((fatDate >>> 5) &&& 0x0f).toNat

/-- The day value of a FAT date, in bits 0 - 4. -/
def dayOfMonth (fatDate : UInt16) : Nat := (fatDate &&& 0x1f).toNat

/-- The hours value of a FAT time, in bits 11 - 15. -/
def hours (fatTime : UInt16) : Nat := ((fatTime >>> 11) &&& 0x1f).toNat

/-- The minutes value of a FAT time, in bits 5 - 10. -/
def minutes (fatTime : UInt16) : Nat := ((fatTime >>> 5) &&& 0x3f).toNat

/-- The seconds value of a FAT time, in bits 0 - 4 as 2-second intervals. -/
def seconds (fatTime : UInt16) : Nat := (fatTime &&& 0x1f).toNat * 2

/-- The test for a leap year, which the loops over the months and the years both make. -/
def isLeapYear (year : Nat) : Bool :=
  (year % 4 == 0 && year % 100 != 0) || year % 400 == 0

/-- What an iteration of the loop over the months adds. -/
def daysOfMonth (year month : Nat) : UInt64 :=
  if month = 2 then
    if isLeapYear year then 29 else 28
  else if month = 4 ∨ month = 6 ∨ month = 9 ∨ month = 11 then 30
  else if month = 1 ∨ month = 3 ∨ month = 5 ∨ month = 7 ∨ month = 8 ∨ month = 10 ∨ month = 12 then
    31
  else 0

/-- The loop that counts the month down to 0. -/
def addMonths (year : Nat) : Nat → UInt64 → UInt64
  | 0, timestamp => timestamp
  | month + 1, timestamp => addMonths year month (timestamp + daysOfMonth year (month + 1))

/-- What an iteration of the loop over the years adds. -/
def daysOfYear (year : Nat) : UInt64 :=
  if isLeapYear year then 366 else 365

/-- The loop that counts the year down to 1980. -/
def addYears : Nat → UInt64 → UInt64
  | 0, timestamp => timestamp
  | year + 1, timestamp =>
    if year + 1 > 1980 then addYears year (timestamp + daysOfYear (year + 1)) else timestamp

/-- The timestamp in minutes, before the offset to UTC is looked at. -/
def localMinutes (fatDate fatTime : UInt16) : UInt64 :=
  let timestamp := UInt64.ofNat (dayOfMonth fatDate)
  let timestamp := addMonths (year fatDate) (month fatDate) timestamp
  let timestamp := addYears (year fatDate) timestamp
  let timestamp := timestamp * 24 + UInt64.ofNat (hours fatTime)
  timestamp * 60 + UInt64.ofNat (minutes fatTime)

/-- The correction by the offset to UTC, which is valid with its most significant bit set. -/
def addUtcOffset (fatTimeUtcOffset : UInt16) (timestamp : UInt64) : UInt64 :=
  if fatTimeUtcOffset &&& 0x80 ≠ 0 then
    let fatTimeUtcOffset := fatTimeUtcOffset &&& 0x7f
    if fatTimeUtcOffset < 0x40 then timestamp + fatTimeUtcOffset.toUInt64 * 15
    else timestamp - (0x80 - fatTimeUtcOffset).toUInt64 * 15
  else timestamp

/-- `libfsfat_date_time_get_timestamp`. -/
def getTimestamp (fatDate fatTime fatTimeFraction fatTimeUtcOffset : UInt16) : UInt64 :=
  let timestamp := addUtcOffset fatTimeUtcOffset (localMinutes fatDate fatTime)
  let timestamp := timestamp * 60 + UInt64.ofNat (seconds fatTime)
  timestamp * 100 + fatTimeFraction.toUInt64

end DateTime

namespace DirectoryEntry

/-- `libfsfat_directory_entry_get_access_time`. -/
def getAccessTime (entry : DirectoryEntry) : UInt64 :=
  DateTime.getTimestamp (.ofNat entry.accessDate) (.ofNat entry.accessTime) 0
    (.ofNat entry.accessTimeUtcOffset)

/-- `libfsfat_directory_entry_get_creation_time`. -/
def getCreationTime (entry : DirectoryEntry) : UInt64 :=
  DateTime.getTimestamp (.ofNat entry.creationDate) (.ofNat entry.creationTime)
    (.ofNat entry.creationTimeFraction) (.ofNat entry.creationTimeUtcOffset)

/-- `libfsfat_directory_entry_get_modification_time`. -/
def getModificationTime (entry : DirectoryEntry) : UInt64 :=
  DateTime.getTimestamp (.ofNat entry.modificationDate) (.ofNat entry.modificationTime)
    (.ofNat entry.modificationTimeFraction) (.ofNat entry.modificationTimeUtcOffset)

end DirectoryEntry

namespace DateTime

open Calendar

theorem isLeapYear_iff (year : Nat) : isLeapYear year = true ↔ IsLeapYear year := by
  simp [isLeapYear, IsLeapYear, Nat.dvd_iff_mod_eq_zero]

theorem daysOfYear_eq (year : Nat) : daysOfYear year = UInt64.ofNat (yearLength year) := by
  unfold daysOfYear yearLength
  simp only [isLeapYear_iff]
  split <;> rfl

theorem daysOfMonth_eq (year : Nat) {month : Nat} (hpos : 1 ≤ month) (hle : month ≤ 12) :
    daysOfMonth year month = UInt64.ofNat (monthLength year month) := by
  unfold daysOfMonth monthLength
  simp only [isLeapYear_iff]
  split_ifs
  all_goals first | rfl | omega

/-- The loop over the months adds the month it starts at too. -/
theorem addMonths_eq (year : Nat) {month : Nat} (h : month ≤ 12) (timestamp : UInt64) :
    addMonths year month timestamp =
      timestamp + UInt64.ofNat (daysBeforeMonth year (month + 1)) := by
  induction month generalizing timestamp with
  | zero => simp [addMonths]
  | succ month ih =>
    rw [addMonths, ih (by omega), daysOfMonth_eq year (by omega) h,
      daysBeforeMonth_succ year (by omega : 1 ≤ month + 1), UInt64.ofNat_add]
    ac_rfl

theorem addYears_of_le {year : Nat} (h : year ≤ 1980) (timestamp : UInt64) :
    addYears year timestamp = timestamp := by
  cases year with
  | zero => rfl
  | succ year => rw [addYears, if_neg (by omega)]

/-- The loop over the years adds the year it starts at, and leaves 1980 out. -/
theorem addYears_eq {year : Nat} (h : 1980 ≤ year) (timestamp : UInt64) :
    addYears year timestamp = timestamp + UInt64.ofNat (daysBeforeYear 1981 (year + 1)) := by
  induction year, h using Nat.le_induction generalizing timestamp with
  | base =>
    have hnone : daysBeforeYear 1981 (1980 + 1) = 0 := daysBeforeYear_self 1981
    rw [addYears_of_le le_rfl, hnone]
    exact (UInt64.add_zero timestamp).symm
  | succ year h ih =>
    rw [addYears, if_pos (by omega), ih, daysOfYear_eq,
      daysBeforeYear_succ (by omega : 1981 ≤ year + 1), UInt64.ofNat_add]
    exact UInt64.add_assoc _ _ _ |>.trans (congrArg _ (UInt64.add_comm _ _))

theorem year_bounds (fatDate : UInt16) : 1980 ≤ year fatDate ∧ year fatDate ≤ 2107 := by
  have hle : ((fatDate >>> 9) &&& 0x7f).toNat ≤ 0x7f := by
    rw [UInt16.toNat_and]
    exact Nat.and_le_right
  unfold year
  omega

/-- The days the two loops count, with the day of the month they start from: the whole month
and the whole year of the date are counted, and the days before it in the month from 1. -/
def excessDays (date : Date) : Nat :=
  monthLength date.year date.month + yearLength date.year - 365

theorem excessDays_bounds (date : Date) : 28 ≤ excessDays date ∧ excessDays date ≤ 32 := by
  have hmonth := monthLength_bounds date.year date.month
  have hyear := yearLength_bounds date.year
  unfold excessDays
  omega

theorem counted_days {date : Date} (h : 1980 ≤ date.year) :
    date.day + daysBeforeMonth date.year (date.month + 1) + daysBeforeYear 1981 (date.year + 1) =
      date.daysSince 1980 + excessDays date := by
  have hfirst : daysBeforeYear 1980 (date.year + 1) =
      yearLength 1980 + daysBeforeYear 1981 (date.year + 1) :=
    daysBeforeYear_epoch_succ (Nat.lt_succ_of_le h)
  have hlast := daysBeforeYear_succ h
  have hleap : yearLength 1980 = 366 := by decide
  have hpos := date.day_pos
  have hyear := (yearLength_bounds date.year).1
  have hmonth := (monthLength_bounds date.year date.month).1
  rw [hlast, hleap] at hfirst
  rw [daysBeforeMonth_succ _ date.month_pos]
  unfold Date.daysSince excessDays
  omega

/-- A FAT date and time that denote a date of the calendar and a time of day. -/
structure CalendarTime where
  fatDate : UInt16
  fatTime : UInt16
  fatTimeFraction : UInt16
  date : Date
  year_eq : year fatDate = date.year
  month_eq : month fatDate = date.month
  day_eq : dayOfMonth fatDate = date.day
  hours_lt : hours fatTime < 24
  minutes_lt : minutes fatTime < 60
  seconds_lt : seconds fatTime < 60
  fraction_lt : fatTimeFraction.toNat < 200

namespace CalendarTime

/-- The minutes from 1980-01-01 00:00 to the minute of the moment. -/
def minutesSince (moment : CalendarTime) : Nat :=
  (moment.date.daysSince 1980 * 24 + hours moment.fatTime) * 60 + minutes moment.fatTime

/-- The 10 millisecond intervals from 1980-01-01 00:00:00 to the moment. -/
def intervalsSince (moment : CalendarTime) : Nat :=
  (moment.minutesSince * 60 + seconds moment.fatTime) * 100 + moment.fatTimeFraction.toNat

/-- `libfsfat_date_time_get_timestamp` of the moment. -/
def timestamp (moment : CalendarTime) (fatTimeUtcOffset : UInt16) : UInt64 :=
  getTimestamp moment.fatDate moment.fatTime moment.fatTimeFraction fatTimeUtcOffset

theorem le_year (moment : CalendarTime) : 1980 ≤ moment.date.year :=
  moment.year_eq ▸ (year_bounds moment.fatDate).1

/-- The days that are counted are those from 1980-01-01 on to the date. -/
theorem date_eq_iterate_next (moment : CalendarTime) :
    Date.next^[moment.date.daysSince 1980] (Date.newYear 1980) = moment.date :=
  Date.iterate_next_daysSince moment.le_year

theorem daysSince_le (moment : CalendarTime) : moment.date.daysSince 1980 ≤ 47000 := by
  have hyear := (year_bounds moment.fatDate).2
  have hyears := daysBeforeYear_le 1980 moment.date.year
  have hmonths := daysBeforeMonth_le moment.date.year moment.date.month
  have hmonth := moment.date.month_le
  have hday := moment.date.day_le
  have hlength := (monthLength_bounds moment.date.year moment.date.month).2
  rw [moment.year_eq] at hyear
  unfold Date.daysSince
  omega

theorem minutesSince_le (moment : CalendarTime) : moment.minutesSince < 67700000 := by
  have hdays := moment.daysSince_le
  have hhours := moment.hours_lt
  have hminutes := moment.minutes_lt
  unfold minutesSince
  omega

/-- The minutes before the offset are the minutes of the calendar and the excess days. -/
theorem localMinutes_eq (moment : CalendarTime) :
    localMinutes moment.fatDate moment.fatTime =
      UInt64.ofNat (moment.minutesSince + 1440 * excessDays moment.date) := by
  have hyear := (year_bounds moment.fatDate).1
  have hmonth : month moment.fatDate ≤ 12 := moment.month_eq ▸ moment.date.month_le
  have hdays := counted_days (moment.year_eq ▸ hyear)
  have hminutes : moment.minutesSince + 1440 * excessDays moment.date =
      ((moment.date.daysSince 1980 + excessDays moment.date) * 24 + hours moment.fatTime) * 60 +
        minutes moment.fatTime := by
    unfold minutesSince
    omega
  dsimp only [localMinutes]
  rw [addMonths_eq _ hmonth, addYears_eq hyear, moment.year_eq, moment.month_eq, moment.day_eq,
    ← UInt64.ofNat_add, ← UInt64.ofNat_add, hdays, hminutes]
  simp only [UInt64.ofNat_add, UInt64.ofNat_mul]
  rfl

end CalendarTime

/-- The number of 15 minute intervals of an offset, as a signed 7-bit value, and none for an
offset that is not marked as valid. -/
def signedOffset (fatTimeUtcOffset : UInt16) : Int :=
  if fatTimeUtcOffset &&& 0x80 ≠ 0 then
    if (fatTimeUtcOffset &&& 0x7f).toNat < 0x40 then (fatTimeUtcOffset &&& 0x7f).toNat
    else (fatTimeUtcOffset &&& 0x7f).toNat - 0x80
  else 0

theorem offsetBits_le (fatTimeUtcOffset : UInt16) : (fatTimeUtcOffset &&& 0x7f).toNat ≤ 0x7f := by
  rw [UInt16.toNat_and]
  exact Nat.and_le_right

theorem signedOffset_bounds (fatTimeUtcOffset : UInt16) :
    -64 ≤ signedOffset fatTimeUtcOffset ∧ signedOffset fatTimeUtcOffset ≤ 63 := by
  have hle := offsetBits_le fatTimeUtcOffset
  unfold signedOffset
  split_ifs <;> omega

/-- The correction adds the offset. It does not wrap when there are minutes enough. -/
theorem toNat_addUtcOffset (fatTimeUtcOffset : UInt16) {minutes : UInt64}
    (hlow : 960 ≤ minutes.toNat) (hhigh : minutes.toNat < 2 ^ 63) :
    ((addUtcOffset fatTimeUtcOffset minutes).toNat : Int) =
      minutes.toNat + 15 * signedOffset fatTimeUtcOffset := by
  have hle := offsetBits_le fatTimeUtcOffset
  unfold addUtcOffset signedOffset
  split
  · generalize fatTimeUtcOffset &&& 0x7f = bits at hle ⊢
    by_cases hsmall : bits.toNat < 0x40
    · have hlt : bits < 0x40 := hsmall
      have hmul : (bits.toUInt64 * 15).toNat = bits.toNat * 15 := by
        rw [UInt64.toNat_mul]
        exact Nat.mod_eq_of_lt (by simp; omega)
      rw [if_pos hlt, if_pos hsmall, UInt64.toNat_add, hmul, Nat.mod_eq_of_lt (by omega)]
      omega
    · have hlt : ¬ bits < 0x40 := hsmall
      have hsub : (0x80 - bits).toNat = 0x80 - bits.toNat :=
        UInt16.toNat_sub_of_le _ _ (by rw [UInt16.le_iff_toNat_le]; exact hle.trans (by decide))
      have hmul : ((0x80 - bits).toUInt64 * 15).toNat = (0x80 - bits.toNat) * 15 := by
        rw [UInt64.toNat_mul, UInt16.toNat_toUInt64, hsub]
        exact Nat.mod_eq_of_lt (by simp; omega)
      rw [if_neg hlt, if_neg hsmall, UInt64.toNat_sub_of_le _ _ (by
        rw [UInt64.le_iff_toNat_le, hmul]
        omega), hmul]
      omega
  · simp

namespace CalendarTime

/-- The loops and the offset stay in 64 bits for every moment. -/
def StaysInRange (moment : CalendarTime) (fatTimeUtcOffset : UInt16) : Prop :=
  ((addUtcOffset fatTimeUtcOffset (localMinutes moment.fatDate moment.fatTime)).toNat : Int) =
    (localMinutes moment.fatDate moment.fatTime).toNat + 15 * signedOffset fatTimeUtcOffset

theorem toNat_localMinutes (moment : CalendarTime) :
    (localMinutes moment.fatDate moment.fatTime).toNat =
      moment.minutesSince + 1440 * excessDays moment.date := by
  have hminutes := moment.minutesSince_le
  have hexcess := (excessDays_bounds moment.date).2
  rw [localMinutes_eq, UInt64.toNat_ofNat']
  exact Nat.mod_eq_of_lt (by omega)

theorem staysInRange (moment : CalendarTime) (fatTimeUtcOffset : UInt16) :
    moment.StaysInRange fatTimeUtcOffset := by
  have hminutes := moment.minutesSince_le
  have hexcess := excessDays_bounds moment.date
  apply toNat_addUtcOffset <;> rw [toNat_localMinutes] <;> omega

/-- What the code computes, as a number. -/
theorem toNat_timestamp (moment : CalendarTime) (fatTimeUtcOffset : UInt16) :
    ((moment.timestamp fatTimeUtcOffset).toNat : Int) =
      moment.intervalsSince + 8640000 * excessDays moment.date +
        90000 * signedOffset fatTimeUtcOffset := by
  have hoffset := moment.staysInRange fatTimeUtcOffset
  have hminutes := moment.minutesSince_le
  have hexcess := excessDays_bounds moment.date
  have hbounds := signedOffset_bounds fatTimeUtcOffset
  have hseconds := moment.seconds_lt
  have hfraction := moment.fraction_lt
  rw [StaysInRange, toNat_localMinutes] at hoffset
  have hvalue : (moment.timestamp fatTimeUtcOffset).toNat =
      ((addUtcOffset fatTimeUtcOffset (localMinutes moment.fatDate moment.fatTime)).toNat * 60 +
        seconds moment.fatTime) * 100 + moment.fatTimeFraction.toNat := by
    simp only [timestamp, getTimestamp, UInt64.toNat_add, UInt64.toNat_mul, UInt64.toNat_ofNat',
      UInt16.toNat_toUInt64, UInt64.reduceToNat]
    omega
  unfold intervalsSince
  omega

theorem timestamp_bounds (moment : CalendarTime) (fatTimeUtcOffset : UInt16) :
    0 < (moment.timestamp fatTimeUtcOffset).toNat ∧
      (moment.timestamp fatTimeUtcOffset).toNat < 2 ^ 39 := by
  have hvalue := moment.toNat_timestamp fatTimeUtcOffset
  have hminutes := moment.minutesSince_le
  have hexcess := excessDays_bounds moment.date
  have hbounds := signedOffset_bounds fatTimeUtcOffset
  have hseconds := moment.seconds_lt
  have hfraction := moment.fraction_lt
  rw [intervalsSince] at hvalue
  constructor <;> omega

/-- Without an offset the timestamp is the count of the intervals and 28 to 32 days, so that it
is exact for no date and time. -/
theorem timestamp_counts_excess_days (moment : CalendarTime) {fatTimeUtcOffset : UInt16}
    (hnone : fatTimeUtcOffset &&& 0x80 = 0) :
    (moment.timestamp fatTimeUtcOffset).toNat =
        moment.intervalsSince + 8640000 * excessDays moment.date ∧
      (moment.timestamp fatTimeUtcOffset).toNat ≠ moment.intervalsSince := by
  have hvalue := moment.toNat_timestamp fatTimeUtcOffset
  have hoffset : signedOffset fatTimeUtcOffset = 0 := by simp [signedOffset, hnone]
  have hexcess := (excessDays_bounds moment.date).1
  rw [hoffset] at hvalue
  constructor <;> omega

/-- 1980-01-01 00:00:00, from which the intervals are counted. -/
def first : CalendarTime where
  fatDate := 0x0021
  fatTime := 0
  fatTimeFraction := 0
  date := Date.newYear 1980
  year_eq := rfl
  month_eq := rfl
  day_eq := rfl
  hours_lt := by decide
  minutes_lt := by decide
  seconds_lt := by decide
  fraction_lt := by decide

theorem timestamp_counts_excess_days_first :
    (first.timestamp 0).toNat = first.intervalsSince + 8640000 * excessDays first.date ∧
      (first.timestamp 0).toNat ≠ first.intervalsSince :=
  first.timestamp_counts_excess_days rfl

theorem first_timestamp_not_exact :
    first.intervalsSince = 0 ∧ (first.timestamp 0).toNat = 32 * 8640000 := by
  decide +kernel

/-- Two times one day apart have timestamps one day apart when the two days count the same
excess. -/
theorem timestamp_next_iff {moment following : CalendarTime}
    (hdate : following.date = moment.date.next) (htime : following.fatTime = moment.fatTime)
    (hfraction : following.fatTimeFraction = moment.fatTimeFraction) (fatTimeUtcOffset : UInt16) :
    (following.timestamp fatTimeUtcOffset).toNat =
        (moment.timestamp fatTimeUtcOffset).toNat + 8640000 ↔
      excessDays following.date = excessDays moment.date := by
  have hnext : following.date.daysSince 1980 = moment.date.daysSince 1980 + 1 := by
    rw [hdate]
    exact Date.daysSince_next moment.le_year
  have hfollowing := following.toNat_timestamp fatTimeUtcOffset
  have hmoment := moment.toNat_timestamp fatTimeUtcOffset
  rw [intervalsSince, minutesSince, hnext, htime, hfraction] at hfollowing
  rw [intervalsSince, minutesSince] at hmoment
  omega

/-- The moment in UTC, in 10 millisecond intervals from 1980-01-01 00:00:00: the local time
less the offset. -/
def instant (moment : CalendarTime) (fatTimeUtcOffset : UInt16) : Int :=
  moment.intervalsSince - 90000 * signedOffset fatTimeUtcOffset

/-- The offset is added and not subtracted, so that it counts twice. -/
theorem toNat_timestamp_instant (moment : CalendarTime) (fatTimeUtcOffset : UInt16) :
    ((moment.timestamp fatTimeUtcOffset).toNat : Int) =
      moment.instant fatTimeUtcOffset + 8640000 * excessDays moment.date +
        180000 * signedOffset fatTimeUtcOffset := by
  rw [toNat_timestamp, instant]
  omega

/-- Two times of one instant have one timestamp only where the months and years counted too much
make up for the offsets, 48 intervals of 15 minutes for each day. -/
theorem timestamps_agree_iff {a b : CalendarTime} {offsetA offsetB : UInt16}
    (hinstant : a.instant offsetA = b.instant offsetB) :
    (a.timestamp offsetA = b.timestamp offsetB ∧
        a.StaysInRange offsetA ∧ b.StaysInRange offsetB) ↔
      signedOffset offsetA - signedOffset offsetB =
        48 * ((monthLength b.date.year b.date.month + yearLength b.date.year : Int) -
          (monthLength a.date.year a.date.month + yearLength a.date.year)) := by
  have ha := a.toNat_timestamp_instant offsetA
  have hb := b.toNat_timestamp_instant offsetB
  have hyears := And.intro (yearLength_bounds a.date.year).1 (yearLength_bounds b.date.year).1
  rw [← UInt64.toNat_inj]
  unfold excessDays at ha hb
  constructor
  · rintro ⟨heq, -, -⟩
    omega
  · intro h
    exact ⟨by omega, a.staysInRange offsetA, b.staysInRange offsetB⟩

/-- 1980-01-01 01:00:00. -/
def firstHour : CalendarTime :=
  { first with
    fatTime := 0x0800
    hours_lt := by decide
    minutes_lt := by decide
    seconds_lt := by decide }

/-- 01:00 an hour east of UTC is 00:00 in UTC, and has a timestamp two hours later. -/
theorem one_hour_east_timestamp :
    firstHour.instant 0x84 = first.instant 0x80 ∧
      (firstHour.timestamp 0x84).toNat = (first.timestamp 0x80).toNat + 720000 := by
  decide +kernel

theorem timestamps_agree_iff_one_hour_east :
    (firstHour.timestamp 0x84 = first.timestamp 0x80 ∧
        firstHour.StaysInRange 0x84 ∧ first.StaysInRange 0x80) ↔
      signedOffset 0x84 - signedOffset 0x80 =
        48 * ((monthLength first.date.year first.date.month + yearLength first.date.year : Int) -
          (monthLength firstHour.date.year firstHour.date.month +
            yearLength firstHour.date.year)) :=
  timestamps_agree_iff (by decide +kernel)

end CalendarTime

end DateTime

end FsFat

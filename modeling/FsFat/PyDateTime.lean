import FsFat.MountFileEntry

/-!
The dates and times of the Python bindings: `pyfsfat_datetime.c`, the functions that the times of a
file entry are given with. A timestamp is counted on to a time in microseconds since 1970, whose
days are taken apart into centuries, years and months by loops. The day before the year 2000 is not
found by them: it has no `datetime` object.
-/

namespace FsFat

open Calendar

/-- A Python `datetime` object. -/
structure DateTimeObject where
  date : Date
  hours : Nat
  minutes : Nat
  seconds : Nat
  microSeconds : Nat
  year_pos : 1 ≤ date.year
  year_le : date.year ≤ 9999
  hours_lt : hours < 24
  minutes_lt : minutes < 60
  seconds_lt : seconds < 60
  microSeconds_lt : microSeconds < 1000000

/-- The microseconds from the begin of a year. -/
def DateTimeObject.microSecondsSince (epoch : Nat) (object : DateTimeObject) : Nat :=
  (((object.date.daysSince epoch * 24 + object.hours) * 60 + object.minutes) * 60 +
    object.seconds) * 1000000 + object.microSeconds

namespace PyDateTime

/-- `PyDateTime_FromDateAndTime`. Values that are out of range raise an error. -/
def fromDateAndTime (year month day hours minutes seconds microSeconds : Nat) :
    Except Error DateTimeObject :=
  if h : (1 ≤ year ∧ year ≤ 9999) ∧ (1 ≤ month ∧ month ≤ 12) ∧
      (1 ≤ day ∧ day ≤ monthLength year month) ∧ hours < 24 ∧ minutes < 60 ∧ seconds < 60 ∧
      microSeconds < 1000000 then
    .ok
      { date := ⟨year, month, day, h.2.1.1, h.2.1.2, h.2.2.1.1, h.2.2.1.2⟩
        hours, minutes, seconds, microSeconds
        year_pos := h.1.1
        year_le := h.1.2
        hours_lt := h.2.2.2.1
        minutes_lt := h.2.2.2.2.1
        seconds_lt := h.2.2.2.2.2.1
        microSeconds_lt := h.2.2.2.2.2.2 }
  else .error .valueOutOfBounds

/-! ### From days to a date -/

/-- The days of the century that starts with a year. -/
def daysInCentury (year : Nat) : Nat := if year % 400 = 0 then 36525 else 36524

def daysInYear (year : Nat) : Nat := if DateTime.isLeapYear year then 366 else 365

/-- The days of a month. There is none behind December. -/
def daysInMonth (year month : Nat) : Except Error Nat :=
  if month = 2 then .ok (if DateTime.isLeapYear year then 29 else 28)
  else if month = 4 ∨ month = 6 ∨ month = 9 ∨ month = 11 then .ok 30
  else if month = 1 ∨ month = 3 ∨ month = 5 ∨ month = 7 ∨ month = 8 ∨ month = 10 ∨ month = 12 then
    .ok 31
  else .error .unsupportedValue

theorem daysInCentury_pos (year : Nat) : 0 < daysInCentury year := by
  unfold daysInCentury
  split <;> simp

theorem daysInYear_pos (year : Nat) : 0 < daysInYear year := by
  unfold daysInYear
  split <;> simp

theorem daysInMonth_pos {year month days : Nat} (h : daysInMonth year month = .ok days) :
    0 < days := by
  unfold daysInMonth at h
  split_ifs at h <;> injection h with h <;> omega

/-- The loop over the centuries: the year, of 16 bits, and the number of days that are left. -/
def passCenturies (year numberOfDays : Nat) : Nat × Nat :=
  if numberOfDays = 0 ∨ numberOfDays ≤ daysInCentury year then (year, numberOfDays)
  else passCenturies ((year + 100) % 2 ^ 16) (numberOfDays - daysInCentury year)
termination_by numberOfDays
decreasing_by
  have := daysInCentury_pos year
  omega

/-- The loop over the years. -/
def passYears (year numberOfDays : Nat) : Nat × Nat :=
  if numberOfDays = 0 ∨ numberOfDays ≤ daysInYear year then (year, numberOfDays)
  else passYears ((year + 1) % 2 ^ 16) (numberOfDays - daysInYear year)
termination_by numberOfDays
decreasing_by
  have := daysInYear_pos year
  omega

/-- The loop over the months. -/
def passMonths (year month numberOfDays : Nat) : Except Error (Nat × Nat) :=
  if numberOfDays = 0 then .ok (month, numberOfDays)
  else
    match h : daysInMonth year month with
    | .error e => .error e
    | .ok days =>
      if numberOfDays ≤ days then .ok (month, numberOfDays)
      else passMonths year ((month + 1) % 2 ^ 8) (numberOfDays - days)
termination_by numberOfDays
decreasing_by
  have := daysInMonth_pos h
  omega

/-- `pyfsfat_datetime_new_from_time_elements`. -/
def newFromTimeElements (year numberOfDays hours minutes seconds microSeconds : Nat) :
    Except Error DateTimeObject := do
  let (year, numberOfDays) := passCenturies year numberOfDays
  let (year, numberOfDays) := passYears year numberOfDays
  let (month, numberOfDays) ← passMonths year 1 numberOfDays
  let dayOfMonth := numberOfDays % 2 ^ 8
  fromDateAndTime year month dayOfMonth hours minutes seconds microSeconds

/-- The conversion of a 64-bit value to `uint8_t`. -/
def toUint8 (x : Int) : Nat := (x % 2 ^ 8).toNat

/-- The conversion of a 64-bit value to `uint32_t`. -/
def toUint32 (x : Int) : Nat := (x % 2 ^ 32).toNat

/-- `pyfsfat_datetime_new_from_posix_time_in_micro_seconds`. -/
def newFromPosixTimeInMicroSeconds (posixTime : Int) : Except Error DateTimeObject :=
  let microSeconds := toUint32 (posixTime.tmod 1000000)
  let posixTime := posixTime.tdiv 1000000
  let seconds := toUint8 (posixTime.tmod 60)
  let posixTime := posixTime.tdiv 60
  let minutes := toUint8 (posixTime.tmod 60)
  let posixTime := posixTime.tdiv 60
  let hours := toUint8 (posixTime.tmod 24)
  let posixTime := posixTime.tdiv 24
  let posixTime := posixTime + 1
  if posixTime ≥ 10957 then
    newFromTimeElements 2000 (toUint64 (posixTime - 10957)) hours minutes seconds microSeconds
  else newFromTimeElements 1970 (toUint64 posixTime) hours minutes seconds microSeconds

/-- The `datetime` object of a timestamp, in `pyfsfat_file_entry.c`. -/
def newFromFatTimestamp (fatTimestamp : UInt64) : Except Error DateTimeObject :=
  newFromPosixTimeInMicroSeconds (toOff64 ((fatTimestamp + 31553280000) * 10000).toNat)

/-- A time that is not set has no object. -/
def getTime (time : Option UInt64) : Except Error (Option DateTimeObject) :=
  match time with
  | none => .ok none
  | some fatTimestamp => (newFromFatTimestamp fatTimestamp).map some

/-- `pyfsfat_file_entry_get_access_time`. -/
def getAccessTime (fileEntry : FileEntry) : Except Error (Option DateTimeObject) :=
  getTime fileEntry.getAccessTime

/-- `pyfsfat_file_entry_get_creation_time`. -/
def getCreationTime (fileEntry : FileEntry) : Except Error (Option DateTimeObject) :=
  getTime fileEntry.getCreationTime

/-- `pyfsfat_file_entry_get_modification_time`. -/
def getModificationTime (fileEntry : FileEntry) : Except Error (Option DateTimeObject) :=
  getTime fileEntry.getModificationTime

/-! ### The loops -/

theorem daysInYear_eq (year : Nat) : daysInYear year = yearLength year := by
  simp only [daysInYear, yearLength, DateTime.isLeapYear_iff]

theorem daysInMonth_eq (year : Nat) {month : Nat} (hpos : 1 ≤ month) (hle : month ≤ 12) :
    daysInMonth year month = .ok (monthLength year month) := by
  unfold daysInMonth monthLength
  simp only [DateTime.isLeapYear_iff]
  split_ifs
  all_goals first | rfl | omega

/-- Years have passed: a number of days from the first of one year on is one from a later
year on. A day that is counted from 1 stays one. -/
structure PassesYears (year numberOfDays year' numberOfDays' : Nat) : Prop where
  le : year ≤ year'
  days : daysBeforeYear year year' + numberOfDays' = numberOfDays
  pos : 0 < numberOfDays → 0 < numberOfDays'

theorem PassesYears.refl (year numberOfDays : Nat) :
    PassesYears year numberOfDays year numberOfDays :=
  ⟨le_rfl, by simp, id⟩

theorem PassesYears.trans {year year' year'' numberOfDays numberOfDays' numberOfDays'' : Nat}
    (h : PassesYears year numberOfDays year' numberOfDays')
    (h' : PassesYears year' numberOfDays' year'' numberOfDays'') :
    PassesYears year numberOfDays year'' numberOfDays'' := by
  refine ⟨h.le.trans h'.le, ?_, fun hpos => h'.pos (h.pos hpos)⟩
  rw [← daysBeforeYear_add h.le h'.le, Nat.add_assoc, h'.days, h.days]

/-- The year stays in 16 bits. -/
theorem PassesYears.year_lt {year numberOfDays year' numberOfDays' : Nat}
    (h : PassesYears year numberOfDays year' numberOfDays')
    (hlt : 365 * year + numberOfDays < 365 * 2 ^ 16) :
    365 * year' + numberOfDays' < 365 * 2 ^ 16 := by
  have hdays := h.days
  have hle := h.le
  have hyears := le_daysBeforeYear year year'
  omega

/-- The loop over the centuries may start at any year if it is left at once. -/
theorem passCenturies_passes {year numberOfDays : Nat}
    (hlt : 365 * year + numberOfDays < 365 * 2 ^ 16)
    (hstart : year % 100 = 0 ∨ numberOfDays ≤ daysInCentury year) :
    PassesYears year numberOfDays (passCenturies year numberOfDays).1
      (passCenturies year numberOfDays).2 := by
  induction year, numberOfDays using passCenturies.induct with
  | case1 year numberOfDays hleave =>
    rw [passCenturies, if_pos hleave]
    exact PassesYears.refl year numberOfDays
  | case2 year numberOfDays hnext ih =>
    obtain ⟨hpos, hmore⟩ := not_or.mp hnext
    have hcentury : year % 100 = 0 := hstart.resolve_right hmore
    have hdays : daysBeforeYear year (year + 100) = daysInCentury year :=
      daysBeforeYear_century hcentury
    have hstep : PassesYears year numberOfDays (year + 100)
        (numberOfDays - daysInCentury year) := by
      refine ⟨Nat.le_add_right year 100, ?_, fun _ => ?_⟩ <;> omega
    have hnextLt := hstep.year_lt hlt
    have hmod : (year + 100) % 2 ^ 16 = year + 100 := Nat.mod_eq_of_lt (by omega)
    rw [hmod] at ih
    rw [passCenturies, if_neg hnext, hmod]
    exact hstep.trans (ih hnextLt (Or.inl (by omega)))

/-- The loop over the years comes to the year with the day. -/
theorem passYears_passes {year numberOfDays : Nat}
    (hlt : 365 * year + numberOfDays < 365 * 2 ^ 16) :
    PassesYears year numberOfDays (passYears year numberOfDays).1
        (passYears year numberOfDays).2 ∧
      (passYears year numberOfDays).2 ≤ yearLength (passYears year numberOfDays).1 := by
  induction year, numberOfDays using passYears.induct with
  | case1 year numberOfDays hleave =>
    rw [passYears, if_pos hleave]
    rw [daysInYear_eq] at hleave
    have hpos := (yearLength_bounds year).1
    have hle : numberOfDays ≤ yearLength year := by omega
    exact ⟨PassesYears.refl year numberOfDays, hle⟩
  | case2 year numberOfDays hnext ih =>
    have hyear := daysBeforeYear_succ (le_refl year)
    rw [daysBeforeYear_self, Nat.zero_add, ← daysInYear_eq] at hyear
    have hstep : PassesYears year numberOfDays (year + 1) (numberOfDays - daysInYear year) := by
      refine ⟨Nat.le_succ year, ?_, fun _ => ?_⟩ <;> omega
    have hnextLt := hstep.year_lt hlt
    have hmod : (year + 1) % 2 ^ 16 = year + 1 := Nat.mod_eq_of_lt (by omega)
    rw [hmod] at ih
    rw [passYears, if_neg hnext, hmod]
    obtain ⟨hpasses, hle⟩ := ih hnextLt
    exact ⟨hstep.trans hpasses, hle⟩

/-- The loop over the months comes to the month with the day. -/
theorem passMonths_passes {year month numberOfDays : Nat} (hpos : 0 < numberOfDays)
    (hmonth : 1 ≤ month) (hmonthLe : month ≤ 12)
    (hle : daysBeforeMonth year month + numberOfDays ≤ yearLength year) :
    ∃ month' day, passMonths year month numberOfDays = .ok (month', day) ∧ 1 ≤ month' ∧
      month' ≤ 12 ∧ 1 ≤ day ∧ day ≤ monthLength year month' ∧
      daysBeforeMonth year month' + day = daysBeforeMonth year month + numberOfDays := by
  induction numberOfDays using Nat.strong_induction_on generalizing month with
  | _ numberOfDays ih =>
    rw [passMonths, if_neg (by omega)]
    split
    · next e herror =>
      rw [daysInMonth_eq year hmonth hmonthLe] at herror
      cases herror
    · next days hdays =>
      rw [daysInMonth_eq year hmonth hmonthLe] at hdays
      injection hdays with hdays
      subst hdays
      split_ifs with hleave
      · exact ⟨month, numberOfDays, rfl, hmonth, hmonthLe, hpos, hleave, rfl⟩
      · have hsucc := daysBeforeMonth_succ year hmonth
        have hlength := (monthLength_bounds year month).1
        have hlast : month ≠ 12 := by
          rintro rfl
          rw [← daysBeforeMonth_thirteen, hsucc] at hle
          omega
        have hmod : (month + 1) % 2 ^ 8 = month + 1 := Nat.mod_eq_of_lt (by omega)
        obtain ⟨month', day, hresult, hpos', hle', hday, hdayLe, hsum⟩ :=
          ih (numberOfDays - monthLength year month) (by omega) (by omega)
            (Nat.le_add_left 1 month) (by omega) (by omega)
        rw [hmod]
        exact ⟨month', day, hresult, hpos', hle', hday, hdayLe, by omega⟩

/-! ### The date -/

/-- A time of day is one of a `datetime` object. -/
structure IsTimeOfDay (hours minutes seconds microSeconds : Nat) : Prop where
  hours_lt : hours < 24
  minutes_lt : minutes < 60
  seconds_lt : seconds < 60
  microSeconds_lt : microSeconds < 1000000

theorem isTimeOfDay_object (object : DateTimeObject) :
    IsTimeOfDay object.hours object.minutes object.seconds object.microSeconds :=
  ⟨object.hours_lt, object.minutes_lt, object.seconds_lt, object.microSeconds_lt⟩

theorem fromDateAndTime_eq_ok_iff {date : Date} {hours minutes seconds microSeconds : Nat}
    (htime : IsTimeOfDay hours minutes seconds microSeconds) {object : DateTimeObject} :
    fromDateAndTime date.year date.month date.day hours minutes seconds microSeconds =
        .ok object ↔
      object.date = date ∧ object.hours = hours ∧ object.minutes = minutes ∧
        object.seconds = seconds ∧ object.microSeconds = microSeconds := by
  obtain ⟨found, _, _, _, _, hyearPos, hyearLe, _, _, _, _⟩ := object
  unfold fromDateAndTime
  constructor
  · intro h
    split_ifs at h
    injection h with h
    injection h with hdate hhours hminutes hseconds hmicroSeconds
    exact ⟨hdate.symm, hhours.symm, hminutes.symm, hseconds.symm, hmicroSeconds.symm⟩
  · rintro ⟨rfl, rfl, rfl, rfl, rfl⟩
    exact dif_pos ⟨⟨hyearPos, hyearLe⟩, ⟨found.month_pos, found.month_le⟩,
      ⟨found.day_pos, found.day_le⟩, htime.hours_lt, htime.minutes_lt, htime.seconds_lt,
      htime.microSeconds_lt⟩

/-- The loops come to the date of a day that is counted from 1. They begin at a century, or do not
come to the next one. -/
theorem exists_date_of_days {year numberOfDays : Nat} (hpos : 0 < numberOfDays)
    (hlt : 365 * year + numberOfDays < 365 * 2 ^ 16)
    (hstart : year % 100 = 0 ∨ numberOfDays ≤ daysInCentury year)
    (hours minutes seconds microSeconds : Nat) :
    ∃ date : Date, year ≤ date.year ∧ date.daysSince year + 1 = numberOfDays ∧
      newFromTimeElements year numberOfDays hours minutes seconds microSeconds =
        fromDateAndTime date.year date.month date.day hours minutes seconds microSeconds := by
  have hcenturies := passCenturies_passes hlt hstart
  obtain ⟨hyears, hle⟩ := passYears_passes (hcenturies.year_lt hlt)
  obtain ⟨hyear, hdays, hday⟩ := hcenturies.trans hyears
  obtain ⟨month, day, hmonths, hmonthPos, hmonthLe, hdayPos, hdayLe, hsum⟩ :=
    passMonths_passes (hday hpos) le_rfl (by decide : 1 ≤ 12) (by simpa using hle)
  have hlength := (monthLength_bounds (passYears (passCenturies year numberOfDays).1
    (passCenturies year numberOfDays).2).1 month).2
  have hmod : day % 2 ^ 8 = day := Nat.mod_eq_of_lt (by omega)
  refine ⟨⟨_, month, day, hmonthPos, hmonthLe, hdayPos, hdayLe⟩, hyear, ?_, ?_⟩
  · rw [daysBeforeMonth_one] at hsum
    unfold Date.daysSince
    dsimp only
    omega
  · simp only [newFromTimeElements, hmonths, bind, Except.bind, hmod]

/-- With no days there is no date. -/
theorem newFromTimeElements_zero (year hours minutes seconds microSeconds : Nat) :
    newFromTimeElements year 0 hours minutes seconds microSeconds = .error .valueOutOfBounds := by
  have hday : ¬ (1 ≤ 0) := by decide
  simp [newFromTimeElements, passCenturies, passYears, passMonths, bind, Except.bind,
    fromDateAndTime, hday]

theorem toUint8_natCast {value : Nat} (h : value < 2 ^ 8) : toUint8 value = value := by
  rw [toUint8, Int.emod_eq_of_lt (Int.natCast_nonneg value) (by omega), Int.toNat_natCast]

theorem toUint32_natCast {value : Nat} (h : value < 2 ^ 32) : toUint32 value = value := by
  rw [toUint32, Int.emod_eq_of_lt (Int.natCast_nonneg value) (by omega), Int.toNat_natCast]

theorem toUint64_natCast {value : Nat} (h : value < 2 ^ 64) : toUint64 value = value := by
  rw [toUint64, Int.emod_eq_of_lt (Int.natCast_nonneg value) (by omega), Int.toNat_natCast]

/-- What the function reads off a time that is not before 1970. -/
theorem newFromPosixTime_natCast {posixTime : Nat} (hlt : posixTime < 2 ^ 63) :
    newFromPosixTimeInMicroSeconds posixTime =
      let days := posixTime / 86400000000 + 1
      let hours := posixTime / 3600000000 % 24
      let minutes := posixTime / 60000000 % 60
      let seconds := posixTime / 1000000 % 60
      let microSeconds := posixTime % 1000000
      if 10957 ≤ days then
        newFromTimeElements 2000 (days - 10957) hours minutes seconds microSeconds
      else newFromTimeElements 1970 days hours minutes seconds microSeconds := by
  have hmicroSeconds : (posixTime : Int).tmod 1000000 = (posixTime % 1000000 : Nat) := rfl
  have hposixSeconds : (posixTime : Int).tdiv 1000000 = (posixTime / 1000000 : Nat) := rfl
  have hmod (value : Nat) : (value : Int).tmod 60 = (value % 60 : Nat) := rfl
  have hdiv (value : Nat) : (value : Int).tdiv 60 = (value / 60 : Nat) := rfl
  have hhours (value : Nat) : (value : Int).tmod 24 = (value % 24 : Nat) := rfl
  have hdays (value : Nat) : (value : Int).tdiv 24 = (value / 24 : Nat) := rfl
  simp only [newFromPosixTimeInMicroSeconds, hmicroSeconds, hposixSeconds, hmod, hdiv, hhours,
    hdays, Nat.div_div_eq_div_mul, Nat.reduceMul]
  rw [toUint32_natCast (by omega), toUint8_natCast (by omega), toUint8_natCast (by omega),
    toUint8_natCast (by omega)]
  split_ifs with hlate hcondition hcondition
  · have hcast : ((posixTime / 86400000000 : Nat) : Int) + 1 - 10957 =
        (posixTime / 86400000000 + 1 - 10957 : Nat) := by omega
    rw [hcast, toUint64_natCast (by omega)]
  · omega
  · omega
  · have hcast : ((posixTime / 86400000000 : Nat) : Int) + 1 =
        (posixTime / 86400000000 + 1 : Nat) := by omega
    rw [hcast, toUint64_natCast (by omega)]

theorem daysSince_of_microSecondsSince {object : DateTimeObject} {posixTime : Nat}
    (h : object.microSecondsSince 1970 = posixTime) :
    object.date.daysSince 1970 = posixTime / 86400000000 := by
  obtain ⟨hhours, hminutes, hseconds, hmicroSeconds⟩ := isTimeOfDay_object object
  unfold DateTimeObject.microSecondsSince at h
  omega

/-- The object of a date and of the time of day is the one with the microseconds. -/
theorem fromDateAndTime_iff_microSeconds {date : Date} {posixTime : Nat} (hyear : 1970 ≤ date.year)
    (hdays : date.daysSince 1970 = posixTime / 86400000000) {object : DateTimeObject} :
    fromDateAndTime date.year date.month date.day (posixTime / 3600000000 % 24)
        (posixTime / 60000000 % 60) (posixTime / 1000000 % 60) (posixTime % 1000000) =
        .ok object ↔
      1970 ≤ object.date.year ∧ object.microSecondsSince 1970 = posixTime := by
  have htime : IsTimeOfDay (posixTime / 3600000000 % 24) (posixTime / 60000000 % 60)
      (posixTime / 1000000 % 60) (posixTime % 1000000) := by
    constructor <;> omega
  rw [fromDateAndTime_eq_ok_iff htime]
  constructor
  · rintro ⟨hdate, hhours, hminutes, hseconds, hmicroSeconds⟩
    rw [DateTimeObject.microSecondsSince, hdate, hhours, hminutes, hseconds, hmicroSeconds, hdays]
    exact ⟨hyear, by omega⟩
  · rintro ⟨hobject, hsum⟩
    have hsame := (daysSince_of_microSecondsSince hsum).trans hdays.symm
    obtain ⟨hhours, hminutes, hseconds, hmicroSeconds⟩ := isTimeOfDay_object object
    refine ⟨Date.eq_of_daysSince_eq hobject hyear hsame, ?_⟩
    unfold DateTimeObject.microSecondsSince at hsum
    omega

/-- A time that is not before 1970 has the `datetime` object with its microseconds, unless it is
on the last day before the year 2000, which is day 10956. -/
theorem newFromPosixTime_eq_ok_iff {posixTime : Nat} (hlt : posixTime / 86400000000 < 23000000)
    {object : DateTimeObject} :
    newFromPosixTimeInMicroSeconds posixTime = .ok object ↔
      posixTime / 86400000000 ≠ 10956 ∧ 1970 ≤ object.date.year ∧
        object.microSecondsSince 1970 = posixTime := by
  rw [newFromPosixTime_natCast (by omega)]
  dsimp only
  split_ifs with hlate
  · rcases Nat.eq_or_lt_of_le hlate with hzero | hpos
    · -- the last day is taken for day 0 of the year 2000
      rw [← hzero, Nat.sub_self, newFromTimeElements_zero]
      exact iff_of_false (by simp) fun h => h.1 (by omega)
    · obtain ⟨date, hyear, hdays, hresult⟩ := exists_date_of_days
        (by omega : 0 < posixTime / 86400000000 + 1 - 10957) (by omega)
        (Or.inl (by decide : 2000 % 100 = 0)) (posixTime / 3600000000 % 24)
        (posixTime / 60000000 % 60) (posixTime / 1000000 % 60) (posixTime % 1000000)
      have hyears : daysBeforeYear 1970 2000 = 10957 := by decide
      have hepoch := Date.daysSince_eq_add (by decide : 1970 ≤ 2000) hyear
      rw [hresult, fromDateAndTime_iff_microSeconds (by omega) (by omega)]
      exact (and_iff_right (by omega)).symm
  · have hcentury : daysInCentury 1970 = 36524 := by decide
    obtain ⟨date, hyear, hdays, hresult⟩ := exists_date_of_days
      (Nat.succ_pos (posixTime / 86400000000)) (by omega)
      (Or.inr (by omega : posixTime / 86400000000 + 1 ≤ daysInCentury 1970))
      (posixTime / 3600000000 % 24) (posixTime / 60000000 % 60) (posixTime / 1000000 % 60)
      (posixTime % 1000000)
    rw [hresult, fromDateAndTime_iff_microSeconds hyear (by omega)]
    exact (and_iff_right (by omega)).symm

example (date : Date) (hyear : date.year = 1999) (hmonth : date.month = 12) (hday : date.day = 31) :
    date.daysSince 1970 = 10956 := by
  rw [Date.daysSince, hyear, hmonth, hday]
  decide

/-- Up to the year 9999 every other day has its objects. -/
theorem exists_newFromPosixTime {posixTime : Nat} (hlt : posixTime / 86400000000 < 2930950)
    (hday : posixTime / 86400000000 ≠ 10956) :
    ∃ object, newFromPosixTimeInMicroSeconds posixTime = .ok object := by
  obtain ⟨date, hyear, hdays⟩ := Date.exists_daysSince 1970 (posixTime / 86400000000)
  have hyears := le_daysBeforeYear 1970 date.year
  have hle : daysBeforeYear 1970 date.year ≤ date.daysSince 1970 := by
    unfold Date.daysSince
    omega
  let object : DateTimeObject :=
    { date
      hours := posixTime / 3600000000 % 24
      minutes := posixTime / 60000000 % 60
      seconds := posixTime / 1000000 % 60
      microSeconds := posixTime % 1000000
      year_pos := by omega
      year_le := by omega
      hours_lt := by omega
      minutes_lt := by omega
      seconds_lt := by omega
      microSeconds_lt := by omega }
  have hsum : object.microSecondsSince 1970 = posixTime := by
    change (((date.daysSince 1970 * 24 + posixTime / 3600000000 % 24) * 60 +
      posixTime / 60000000 % 60) * 60 + posixTime / 1000000 % 60) * 1000000 +
        posixTime % 1000000 = posixTime
    omega
  exact ⟨object, (newFromPosixTime_eq_ok_iff (by omega)).mpr ⟨hday, hyear, hsum⟩⟩

/-! ### The timestamps of the library -/

section Timestamps

open DateTime

theorem toNat_daysOfMonth_le (year month : Nat) : (daysOfMonth year month).toNat ≤ 31 := by
  unfold daysOfMonth
  split_ifs <;> decide

theorem toNat_daysOfYear_le (year : Nat) : (daysOfYear year).toNat ≤ 366 := by
  unfold daysOfYear
  split_ifs <;> decide

/-- The loop over the months, also where there is no such month. -/
theorem toNat_addMonths_le (year month : Nat) (timestamp : UInt64) :
    (addMonths year month timestamp).toNat ≤ timestamp.toNat + 31 * month := by
  induction month generalizing timestamp with
  | zero => simp [addMonths]
  | succ month ih =>
    have hdays := toNat_daysOfMonth_le year (month + 1)
    have hrest := ih (timestamp + daysOfMonth year (month + 1))
    rw [UInt64.toNat_add] at hrest
    rw [addMonths]
    omega

theorem toNat_addYears_le (year : Nat) (timestamp : UInt64) :
    (addYears year timestamp).toNat ≤ timestamp.toNat + 366 * (year - 1980) := by
  induction year generalizing timestamp with
  | zero => simp [addYears]
  | succ year ih =>
    rw [addYears]
    split_ifs with hlate
    · have hdays := toNat_daysOfYear_le (year + 1)
      have hrest := ih (timestamp + daysOfYear (year + 1))
      rw [UInt64.toNat_add] at hrest
      omega
    · omega

theorem toNat_mul_add_le {value : UInt64} {most mostAdded added : Nat} (count : UInt64)
    (hvalue : value.toNat ≤ most) (hadded : added ≤ mostAdded) :
    (value * count + UInt64.ofNat added).toNat ≤ most * count.toNat + mostAdded := by
  rw [UInt64.toNat_add, UInt64.toNat_mul, UInt64.toNat_ofNat']
  calc (value.toNat * count.toNat % 2 ^ 64 + added % 2 ^ 64) % 2 ^ 64
      ≤ value.toNat * count.toNat % 2 ^ 64 + added % 2 ^ 64 := Nat.mod_le _ _
    _ ≤ value.toNat * count.toNat + added := Nat.add_le_add (Nat.mod_le _ _) (Nat.mod_le _ _)
    _ ≤ most * count.toNat + mostAdded :=
      Nat.add_le_add (Nat.mul_le_mul_right _ hvalue) hadded

/-- The minutes of any two bytes each for the date and the time. -/
theorem toNat_localMinutes_le (fatDate fatTime : UInt16) :
    (localMinutes fatDate fatTime).toNat ≤ 68000000 := by
  have hday : dayOfMonth fatDate ≤ 0x1f := by
    rw [dayOfMonth, UInt16.toNat_and]
    exact Nat.and_le_right
  have hmonth : month fatDate ≤ 0x0f := by
    rw [month, UInt16.toNat_and]
    exact Nat.and_le_right
  have hhours : hours fatTime ≤ 0x1f := by
    rw [hours, UInt16.toNat_and]
    exact Nat.and_le_right
  have hminutes : minutes fatTime ≤ 0x3f := by
    rw [minutes, UInt16.toNat_and]
    exact Nat.and_le_right
  have hyear := (year_bounds fatDate).2
  have hmonths := toNat_addMonths_le (year fatDate) (month fatDate)
    (UInt64.ofNat (dayOfMonth fatDate))
  have hyears := toNat_addYears_le (year fatDate)
    (addMonths (year fatDate) (month fatDate) (UInt64.ofNat (dayOfMonth fatDate)))
  rw [UInt64.toNat_ofNat'] at hmonths
  have hdays : (addYears (year fatDate) (addMonths (year fatDate) (month fatDate)
      (UInt64.ofNat (dayOfMonth fatDate)))).toNat ≤ 46978 := by omega
  dsimp only [localMinutes]
  have hcount := toNat_mul_add_le 24 hdays hhours
  exact (toNat_mul_add_le 60 hcount hminutes).trans (by decide)

/-- The correction by an offset may wrap, but not when 16 hours are added. -/
theorem toNat_addUtcOffset_add (fatTimeUtcOffset : UInt16) {minutes : UInt64}
    (hminutes : minutes.toNat ≤ 68000000) :
    ((addUtcOffset fatTimeUtcOffset minutes + 960).toNat : Int) =
      minutes.toNat + 960 + 15 * signedOffset fatTimeUtcOffset := by
  have hle := offsetBits_le fatTimeUtcOffset
  unfold addUtcOffset signedOffset
  split
  · generalize fatTimeUtcOffset &&& 0x7f = bits at hle ⊢
    by_cases hsmall : bits.toNat < 0x40
    · have hbits : bits < 0x40 := hsmall
      rw [if_pos hbits, if_pos hsmall]
      simp only [UInt64.toNat_add, UInt64.toNat_mul, UInt16.toNat_toUInt64, UInt64.reduceToNat]
      omega
    · have hbits : ¬ bits < 0x40 := hsmall
      have hsub : (0x80 - bits).toNat = 0x80 - bits.toNat :=
        UInt16.toNat_sub_of_le _ _ (by rw [UInt16.le_iff_toNat_le]; exact hle.trans (by decide))
      have hmul : ((0x80 - bits).toUInt64 * 15).toNat = (0x80 - bits.toNat) * 15 := by
        rw [UInt64.toNat_mul, UInt16.toNat_toUInt64, hsub]
        exact Nat.mod_eq_of_lt (by simp; omega)
      rw [if_neg hbits, if_neg hsmall, UInt64.toNat_add, UInt64.toNat_sub, hmul]
      simp only [UInt64.reduceToNat]
      omega
  · rw [UInt64.toNat_add]
    simp only [UInt64.reduceToNat]
    omega

theorem seconds_le (fatTime : UInt16) : seconds fatTime ≤ 62 := by
  rw [seconds, UInt16.toNat_and]
  exact Nat.mul_le_mul_right 2 Nat.and_le_right

/-- The intervals since 1970 of any timestamp of the library. -/
theorem toNat_getTimestamp_add (fatDate fatTime fatTimeFraction fatTimeUtcOffset : UInt16) :
    ((getTimestamp fatDate fatTime fatTimeFraction fatTimeUtcOffset + 31553280000).toNat : Int) =
      (((localMinutes fatDate fatTime).toNat + 15 * signedOffset fatTimeUtcOffset) * 60 +
        seconds fatTime) * 100 + fatTimeFraction.toNat + 31553280000 := by
  have hminutes := toNat_localMinutes_le fatDate fatTime
  have hoffset := toNat_addUtcOffset_add fatTimeUtcOffset hminutes
  have hbounds := signedOffset_bounds fatTimeUtcOffset
  have hfraction := fatTimeFraction.toNat_lt
  have hseconds := seconds_le fatTime
  unfold getTimestamp
  generalize addUtcOffset fatTimeUtcOffset (localMinutes fatDate fatTime) = corrected at hoffset ⊢
  have hshift : ((corrected * 60 + UInt64.ofNat (seconds fatTime)) * 100 +
      fatTimeFraction.toUInt64) + 31553280000 =
      (((corrected + 960) * 60 + UInt64.ofNat (seconds fatTime)) * 100 +
        fatTimeFraction.toUInt64) + 31547520000 := by
    grind
  dsimp only
  rw [hshift]
  simp only [UInt64.toNat_add, UInt64.toNat_mul, UInt64.toNat_ofNat', UInt16.toNat_toUInt64,
    UInt64.reduceToNat] at hoffset ⊢
  omega

theorem toNat_getTimestamp_add_lt (fatDate fatTime fatTimeFraction fatTimeUtcOffset : UInt16) :
    (getTimestamp fatDate fatTime fatTimeFraction fatTimeUtcOffset + 31553280000).toNat <
      500000000000 := by
  have hvalue := toNat_getTimestamp_add fatDate fatTime fatTimeFraction fatTimeUtcOffset
  have hminutes := toNat_localMinutes_le fatDate fatTime
  have hbounds := signedOffset_bounds fatTimeUtcOffset
  have hfraction := fatTimeFraction.toNat_lt
  have hseconds := seconds_le fatTime
  omega

/-- The time that the information tool prints does not wrap. -/
theorem toNat_infoPosixTime {fatTimestamp : UInt64}
    (hlt : (fatTimestamp + 31553280000).toNat < 500000000000) :
    (infoPosixTime fatTimestamp).toNat = (fatTimestamp + 31553280000).toNat * 10000 := by
  rw [infoPosixTime, UInt64.toNat_mul]
  exact Nat.mod_eq_of_lt (by simp only [UInt64.reduceToNat]; omega)

theorem newFromFatTimestamp_eq {fatTimestamp : UInt64}
    (hlt : (fatTimestamp + 31553280000).toNat < 500000000000) :
    newFromFatTimestamp fatTimestamp =
      newFromPosixTimeInMicroSeconds (infoPosixTime fatTimestamp).toNat := by
  have hposix := toNat_infoPosixTime hlt
  have hmax : int64Max = 9223372036854775807 := rfl
  rw [newFromFatTimestamp, ← infoPosixTime, toOff64_of_nonneg (Int.natCast_nonneg _) (by omega)]

/-- The object has the microseconds that the information tool prints, and there is one unless they
are on the last day before the year 2000. -/
def ShowsTime (fatTimestamp : UInt64) (result : Except Error (Option DateTimeObject)) : Prop :=
  if (infoPosixTime fatTimestamp).toNat / 86400000000 = 10956 then ∃ e, result = .error e
  else ∃ object, result = .ok (some object) ∧ 1970 ≤ object.date.year ∧
    object.microSecondsSince 1970 = (infoPosixTime fatTimestamp).toNat

theorem showsTime_getTime (fatDate fatTime fatTimeFraction fatTimeUtcOffset : UInt16) :
    ShowsTime (getTimestamp fatDate fatTime fatTimeFraction fatTimeUtcOffset)
      (getTime (some (getTimestamp fatDate fatTime fatTimeFraction fatTimeUtcOffset))) := by
  have hlt := toNat_getTimestamp_add_lt fatDate fatTime fatTimeFraction fatTimeUtcOffset
  generalize getTimestamp fatDate fatTime fatTimeFraction fatTimeUtcOffset = fatTimestamp at hlt ⊢
  have hposix := toNat_infoPosixTime hlt
  rw [ShowsTime, getTime, newFromFatTimestamp_eq hlt]
  split_ifs with hday
  · cases hresult : newFromPosixTimeInMicroSeconds (infoPosixTime fatTimestamp).toNat with
    | error e => exact ⟨e, rfl⟩
    | ok object => exact absurd hday ((newFromPosixTime_eq_ok_iff (by omega)).mp hresult).1
  · obtain ⟨object, hobject⟩ := exists_newFromPosixTime (by omega) hday
    obtain ⟨_, hyear, hsum⟩ := (newFromPosixTime_eq_ok_iff (by omega)).mp hobject
    exact ⟨object, by rw [hobject]; rfl, hyear, hsum⟩

end Timestamps

end PyDateTime

end FsFat

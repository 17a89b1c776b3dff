import Mathlib.Algebra.BigOperators.Intervals
import Mathlib.Algebra.Order.BigOperators.Group.Finset
import Mathlib.Algebra.Group.Action.Defs
import Mathlib.Logic.Function.Iterate

/-!
The proleptic Gregorian calendar. A `Date` carries that it is a date of the
calendar, `Date.next` is the day after it, and `Date.daysSince` counts the days
from the first day of a year by the lengths of the years and months that have
passed. The count is the number of times `next` has to be taken.
-/

namespace FsFat.Calendar

def IsLeapYear (year : Nat) : Prop :=
  (4 ∣ year ∧ ¬ 100 ∣ year) ∨ 400 ∣ year

instance (year : Nat) : Decidable (IsLeapYear year) :=
  inferInstanceAs (Decidable (_ ∨ _))

def yearLength (year : Nat) : Nat :=
  if IsLeapYear year then 366 else 365

def monthLength (year month : Nat) : Nat :=
  if month = 2 then
    if IsLeapYear year then 29 else 28
  else if month = 4 ∨ month = 6 ∨ month = 9 ∨ month = 11 then 30
  else 31

theorem yearLength_bounds (year : Nat) : 365 ≤ yearLength year ∧ yearLength year ≤ 366 := by
  unfold yearLength
  split <;> simp

theorem monthLength_bounds (year month : Nat) :
    28 ≤ monthLength year month ∧ monthLength year month ≤ 31 := by
  unfold monthLength
  split_ifs <;> simp

/-- The days of the months before `month` in the same year. -/
def daysBeforeMonth (year month : Nat) : Nat :=
  ∑ m ∈ Finset.Ico 1 month, monthLength year m

/-- The days of the years from `epoch` up to and without `year`. -/
def daysBeforeYear (epoch year : Nat) : Nat :=
  ∑ y ∈ Finset.Ico epoch year, yearLength y

@[simp] theorem daysBeforeMonth_one (year : Nat) : daysBeforeMonth year 1 = 0 := rfl

@[simp] theorem daysBeforeYear_self (epoch : Nat) : daysBeforeYear epoch epoch = 0 := by
  simp [daysBeforeYear]

theorem daysBeforeMonth_succ (year : Nat) {month : Nat} (h : 1 ≤ month) :
    daysBeforeMonth year (month + 1) = daysBeforeMonth year month + monthLength year month :=
  Finset.sum_Ico_succ_top h _

theorem daysBeforeYear_succ {epoch year : Nat} (h : epoch ≤ year) :
    daysBeforeYear epoch (year + 1) = daysBeforeYear epoch year + yearLength year :=
  Finset.sum_Ico_succ_top h _

theorem daysBeforeYear_epoch_succ {epoch year : Nat} (h : epoch < year) :
    daysBeforeYear epoch year = yearLength epoch + daysBeforeYear (epoch + 1) year :=
  Finset.sum_eq_sum_Ico_succ_bot h _

/-- The twelve months are the year. -/
theorem daysBeforeMonth_thirteen (year : Nat) : daysBeforeMonth year 13 = yearLength year := by
  unfold daysBeforeMonth yearLength
  rw [Finset.sum_Ico_eq_sum_range]
  simp only [Finset.sum_range_succ, Finset.sum_range_zero, monthLength]
  by_cases hleap : IsLeapYear year <;> simp [hleap]

theorem le_daysBeforeYear (epoch year : Nat) :
    (year - epoch) * 365 ≤ daysBeforeYear epoch year := by
  have hsum : (Finset.Ico epoch year).card • 365 ≤ daysBeforeYear epoch year :=
    Finset.card_nsmul_le_sum _ _ _ (fun y _ => (yearLength_bounds y).1)
  rwa [Nat.card_Ico, smul_eq_mul] at hsum

/-- The days of the years in between add up. -/
theorem daysBeforeYear_add {epoch year last : Nat} (h : epoch ≤ year) (hlast : year ≤ last) :
    daysBeforeYear epoch year + daysBeforeYear year last = daysBeforeYear epoch last :=
  Finset.sum_Ico_consecutive _ h hlast

/-- The days before a year, by the leap years. -/
theorem daysBeforeYear_zero (year : Nat) :
    daysBeforeYear 0 year + (year + 99) / 100 =
      365 * year + (year + 3) / 4 + (year + 399) / 400 := by
  induction year with
  | zero => rfl
  | succ year ih =>
    rw [daysBeforeYear_succ (Nat.zero_le year), yearLength]
    split_ifs with hleap <;> simp only [IsLeapYear] at hleap <;> omega

/-- A century that starts with a year divisible by 100 has 24 leap years, and one more if that
year is one. -/
theorem daysBeforeYear_century {year : Nat} (h : year % 100 = 0) :
    daysBeforeYear year (year + 100) = if year % 400 = 0 then 36525 else 36524 := by
  have hfirst := daysBeforeYear_zero year
  have hlast := daysBeforeYear_zero (year + 100)
  have hadd := daysBeforeYear_add (Nat.zero_le year) (Nat.le_add_right year 100)
  split_ifs <;> omega

theorem daysBeforeMonth_le (year month : Nat) : daysBeforeMonth year month ≤ month * 31 := by
  have hsum : daysBeforeMonth year month ≤ (Finset.Ico 1 month).card • 31 :=
    Finset.sum_le_card_nsmul _ _ _ (fun m _ => (monthLength_bounds year m).2)
  rw [Nat.card_Ico, smul_eq_mul] at hsum
  omega

theorem daysBeforeYear_le (epoch year : Nat) :
    daysBeforeYear epoch year ≤ (year - epoch) * 366 := by
  have hsum : daysBeforeYear epoch year ≤ (Finset.Ico epoch year).card • 366 :=
    Finset.sum_le_card_nsmul _ _ _ (fun y _ => (yearLength_bounds y).2)
  rwa [Nat.card_Ico, smul_eq_mul] at hsum

/-- A date of the calendar. -/
@[ext] structure Date where
  year : Nat
  month : Nat
  day : Nat
  month_pos : 1 ≤ month
  month_le : month ≤ 12
  day_pos : 1 ≤ day
  day_le : day ≤ monthLength year month

namespace Date

/-- January 1 of a year. -/
def newYear (year : Nat) : Date where
  year := year
  month := 1
  day := 1
  month_pos := le_rfl
  month_le := by decide
  day_pos := le_rfl
  day_le := (by decide : 1 ≤ 28).trans (monthLength_bounds year 1).1

/-- The first day of a later month of the same year. -/
def monthStart (date : Date) (h : date.month < 12) : Date where
  year := date.year
  month := date.month + 1
  day := 1
  month_pos := Nat.le_add_left 1 date.month
  month_le := h
  day_pos := le_rfl
  day_le := (by decide : 1 ≤ 28).trans (monthLength_bounds date.year (date.month + 1)).1

/-- The day after. -/
def next (date : Date) : Date :=
  if hday : date.day < monthLength date.year date.month then
    { date with day := date.day + 1, day_pos := Nat.le_add_left 1 date.day, day_le := hday }
  else if hmonth : date.month < 12 then date.monthStart hmonth
  else newYear (date.year + 1)

/-- The number of days from January 1 of the year `epoch`. -/
def daysSince (epoch : Nat) (date : Date) : Nat :=
  daysBeforeYear epoch date.year + daysBeforeMonth date.year date.month + (date.day - 1)

@[simp] theorem daysSince_newYear (epoch : Nat) : (newYear epoch).daysSince epoch = 0 := by
  simp [daysSince, newYear]

theorem next_of_day_lt {date : Date} (h : date.day < monthLength date.year date.month) :
    date.next =
      { date with day := date.day + 1, day_pos := Nat.le_add_left 1 date.day, day_le := h } := by
  rw [next, dif_pos h]

theorem next_of_month_lt {date : Date} (hday : date.day = monthLength date.year date.month)
    (hmonth : date.month < 12) : date.next = date.monthStart hmonth := by
  rw [next, dif_neg (by omega), dif_pos hmonth]

theorem next_of_year_end {date : Date} (hday : date.day = monthLength date.year date.month)
    (hmonth : date.month = 12) : date.next = newYear (date.year + 1) := by
  rw [next, dif_neg (by omega), dif_neg (by omega)]

/-- The three ways in which a day is the day after another. -/
theorem next_cases (date : Date) :
    (date.day < monthLength date.year date.month ∧ date.next.year = date.year ∧
      date.next.month = date.month ∧ date.next.day = date.day + 1) ∨
    (date.day = monthLength date.year date.month ∧ date.month < 12 ∧
      date.next.year = date.year ∧ date.next.month = date.month + 1 ∧ date.next.day = 1) ∨
    (date.day = monthLength date.year date.month ∧ date.month = 12 ∧
      date.next.year = date.year + 1 ∧ date.next.month = 1 ∧ date.next.day = 1) := by
  rcases date.day_le.lt_or_eq with hday | hday
  · exact .inl ⟨hday, by simp [next_of_day_lt hday]⟩
  · rcases date.month_le.lt_or_eq with hmonth | hmonth
    · exact .inr (.inl ⟨hday, hmonth, by simp [next_of_month_lt hday hmonth, monthStart]⟩)
    · exact .inr (.inr ⟨hday, hmonth, by simp [next_of_year_end hday hmonth, newYear]⟩)

/-- The day after is one day later. -/
theorem daysSince_next {epoch : Nat} {date : Date} (h : epoch ≤ date.year) :
    date.next.daysSince epoch = date.daysSince epoch + 1 := by
  have hpos := date.day_pos
  obtain ⟨_, hy, hm, hd⟩ | ⟨hday, _, hy, hm, hd⟩ | ⟨hday, hmonth, hy, hm, hd⟩ := date.next_cases
  · rw [daysSince, daysSince, hy, hm, hd]
    omega
  · rw [daysSince, daysSince, hy, hm, hd, daysBeforeMonth_succ _ date.month_pos]
    omega
  · have hyear : daysBeforeMonth date.year 13 = _ := daysBeforeMonth_succ date.year (by decide)
    rw [daysSince, daysSince, hy, hm, hd, daysBeforeYear_succ h, hday, hmonth,
      ← daysBeforeMonth_thirteen, hyear]
    have := (monthLength_bounds date.year 12).1
    rw [daysBeforeMonth_one]
    omega

/-- The day before, for a day that is not the first of its month. -/
theorem exists_next_of_day {date : Date} (h : 1 < date.day) :
    ∃ before : Date, before.next = date ∧ before.year = date.year := by
  let before : Date :=
    { date with day := date.day - 1, day_pos := by omega, day_le := by have := date.day_le; omega }
  have hday : before.day < monthLength before.year before.month := by
    have := date.day_le
    change date.day - 1 < monthLength date.year date.month
    omega
  refine ⟨before, ?_, rfl⟩
  rw [next_of_day_lt hday]
  ext
  · rfl
  · rfl
  · exact Nat.sub_add_cancel date.day_pos

/-- The last day of a month. -/
def monthEnd (year month : Nat) (hpos : 1 ≤ month) (hle : month ≤ 12) : Date where
  year := year
  month := month
  day := monthLength year month
  month_pos := hpos
  month_le := hle
  day_pos := (by decide : 1 ≤ 28).trans (monthLength_bounds year month).1
  day_le := le_rfl

/-- Every day but January 1 of `epoch` is the day after one that is not before it. -/
theorem exists_next {epoch : Nat} {date : Date} (h : epoch ≤ date.year)
    (hne : date ≠ newYear epoch) : ∃ before : Date, before.next = date ∧ epoch ≤ before.year := by
  rcases date.day_pos.lt_or_eq with hday | hday
  · obtain ⟨before, hnext, hyear⟩ := exists_next_of_day hday
    exact ⟨before, hnext, hyear ▸ h⟩
  · rcases date.month_pos.lt_or_eq with hmonth | hmonth
    · have hle := date.month_le
      refine ⟨monthEnd date.year (date.month - 1) (by omega) (by omega), ?_, h⟩
      rw [next_of_month_lt rfl (show date.month - 1 < 12 by omega)]
      ext
      · rfl
      · exact Nat.sub_add_cancel date.month_pos
      · exact hday
    · have hyear : epoch ≠ date.year := by
        intro hyear
        apply hne
        ext
        · exact hyear.symm
        · exact hmonth.symm
        · exact hday.symm
      refine ⟨monthEnd (date.year - 1) 12 (by decide) le_rfl, ?_,
        (by omega : epoch ≤ date.year - 1)⟩
      rw [next_of_year_end rfl rfl]
      ext
      · exact (by omega : date.year - 1 + 1 = date.year)
      · exact hmonth
      · exact hday

/-- The count of days is the number of days one has to go on from the first. -/
theorem iterate_next_daysSince {epoch : Nat} {date : Date} (h : epoch ≤ date.year) :
    next^[date.daysSince epoch] (newYear epoch) = date := by
  generalize hcount : date.daysSince epoch = count
  induction count generalizing date with
  | zero =>
    by_contra hne
    obtain ⟨before, rfl, hyear⟩ := exists_next h (Ne.symm hne)
    rw [daysSince_next hyear] at hcount
    exact Nat.succ_ne_zero _ hcount
  | succ count ih =>
    have hne : date ≠ newYear epoch := by
      rintro rfl
      simp at hcount
    obtain ⟨before, rfl, hyear⟩ := exists_next h hne
    rw [daysSince_next hyear] at hcount
    rw [Function.iterate_succ_apply', ih hyear (Nat.succ.inj hcount)]

/-- Every count of days is one of a date. -/
theorem exists_daysSince (epoch count : Nat) :
    ∃ date : Date, epoch ≤ date.year ∧ date.daysSince epoch = count := by
  induction count with
  | zero => exact ⟨newYear epoch, le_rfl, daysSince_newYear epoch⟩
  | succ count ih =>
    obtain ⟨date, hyear, hcount⟩ := ih
    refine ⟨date.next, ?_, by rw [daysSince_next hyear, hcount]⟩
    obtain ⟨_, hy, _⟩ | ⟨_, _, hy, _⟩ | ⟨_, _, hy, _⟩ := date.next_cases <;> omega

/-- The count of days from another year. -/
theorem daysSince_eq_add {epoch year : Nat} {date : Date} (h : epoch ≤ year)
    (hdate : year ≤ date.year) :
    date.daysSince epoch = daysBeforeYear epoch year + date.daysSince year := by
  rw [daysSince, daysSince, ← daysBeforeYear_add h hdate]
  omega

/-- There is one date with a count of days. -/
theorem eq_of_daysSince_eq {epoch : Nat} {date other : Date} (h : epoch ≤ date.year)
    (hother : epoch ≤ other.year) (heq : date.daysSince epoch = other.daysSince epoch) :
    date = other := by
  rw [← iterate_next_daysSince h, ← iterate_next_daysSince hother, heq]

end Date

end FsFat.Calendar

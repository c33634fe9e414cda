import Mathlib

/-!
# Dates and times of day

The Gregorian calendar, its days in a row, and the seconds between two moments.
A year is one that is written with four digits, and a minute may have a leap
second.
-/

namespace EasyWaf.Core.Calendar

section Days

def isLeapYear (year : ℕ) : Bool := year % 4 = 0 && (year % 100 ≠ 0 || year % 400 = 0)

def daysInYear (year : ℕ) : ℕ := if isLeapYear year then 366 else 365

def daysInMonth (year : ℕ) : ℕ → ℕ
  | 2 => if isLeapYear year then 29 else 28
  | 4 | 6 | 9 | 11 => 30
  | _ => 31

/-- The days of the years before one, from year 0 on. -/
def daysBeforeYear (year : ℕ) : ℕ :=
  365 * year + (year + 3) / 4 - (year + 99) / 100 + (year + 399) / 400

/-- The days of the months before one, in its year. -/
def daysBeforeMonth (year month : ℕ) : ℕ := ∑ before ∈ Finset.Ico 1 month, daysInMonth year before

variable {year month : ℕ}

theorem daysBeforeYear_succ (year : ℕ) :
    daysBeforeYear (year + 1) = daysBeforeYear year + daysInYear year := by
  have hfour : (year + 4) / 4 = (year + 3) / 4 + if year % 4 = 0 then 1 else 0 := by
    split <;> omega
  have hhundred : (year + 100) / 100 = (year + 99) / 100 + if year % 100 = 0 then 1 else 0 := by
    split <;> omega
  have hfourhundred :
      (year + 400) / 400 = (year + 399) / 400 + if year % 400 = 0 then 1 else 0 := by
    split <;> omega
  have hless : (year + 99) / 100 ≤ (year + 3) / 4 := by omega
  have hfourth : year % 100 = 0 → year % 4 = 0 := by omega
  have hhundredth : year % 400 = 0 → year % 100 = 0 := by omega
  rw [daysBeforeYear, daysBeforeYear, daysInYear, isLeapYear, Nat.add_right_comm year 1 3,
    Nat.add_right_comm year 1 99, Nat.add_right_comm year 1 399, hfour, hhundred, hfourhundred]
  generalize (year + 3) / 4 = fourths, (year + 99) / 100 = hundredths,
    (year + 399) / 400 = fourHundredths at *
  by_cases h4 : year % 4 = 0 <;> by_cases h100 : year % 100 = 0 <;>
    by_cases h400 : year % 400 = 0 <;> simp [h4, h100, h400] at * <;> omega

theorem daysBeforeMonth_succ (year : ℕ) (hmonth : 1 ≤ month) :
    daysBeforeMonth year (month + 1) = daysBeforeMonth year month + daysInMonth year month :=
  Finset.sum_Ico_succ_top hmonth (daysInMonth year)

theorem daysBeforeMonth_thirteen (year : ℕ) : daysBeforeMonth year 13 = daysInYear year := by
  simp only [daysBeforeMonth, Finset.sum_Ico_eq_sum_range, Finset.sum_range_succ,
    Finset.sum_range_zero, daysInMonth, daysInYear]
  split <;> rfl

theorem daysInMonth_le (year month : ℕ) : daysInMonth year month ≤ 31 := by
  unfold daysInMonth
  split
  · split <;> omega
  all_goals omega

theorem monotone_daysBeforeYear : Monotone daysBeforeYear :=
  monotone_nat_of_le_succ fun year => daysBeforeYear_succ year ▸ Nat.le_add_right _ _

theorem monotone_daysBeforeMonth (year : ℕ) : Monotone (daysBeforeMonth year) :=
  fun _ _ hle => Finset.sum_le_sum_of_subset (Finset.Ico_subset_Ico_right hle)

end Days

/-- A day of the years 0 to 9999. -/
structure Date where
  year : ℕ
  month : ℕ
  day : ℕ
  year_lt : year < 10000
  month_mem : 1 ≤ month ∧ month ≤ 12
  day_mem : 1 ≤ day ∧ day ≤ daysInMonth year month
deriving DecidableEq

/-- A time of day, a leap second being the sixtieth of its minute. -/
structure Clock where
  hour : ℕ
  minute : ℕ
  second : ℕ
  hour_lt : hour < 24
  minute_lt : minute < 60
  second_le : second ≤ 60
deriving DecidableEq

structure Moment where
  date : Date
  clock : Clock
deriving DecidableEq

namespace Date

variable {date other : Date}

/-- The days before this one. -/
def number (date : Date) : ℕ :=
  daysBeforeYear date.year + daysBeforeMonth date.year date.month + (date.day - 1)

theorem month_lt (date : Date) : date.month < 10 ^ 2 := by
  have hmonth := date.month_mem
  omega

theorem day_lt (date : Date) : date.day < 10 ^ 2 := by
  have hday := date.day_mem
  have hmonth := daysInMonth_le date.year date.month
  omega

def ofFields? (year month day : ℕ) : Option Date :=
  if h : year < 10000 ∧ (1 ≤ month ∧ month ≤ 12) ∧ 1 ≤ day ∧ day ≤ daysInMonth year month then
    some ⟨year, month, day, h.1, h.2.1, h.2.2⟩
  else none

theorem ofFields?_fields (date : Date) : ofFields? date.year date.month date.day = some date :=
  dif_pos ⟨date.year_lt, date.month_mem, date.day_mem⟩

theorem eq_of_ofFields? {year month day : ℕ} (hdate : ofFields? year month day = some date) :
    date.year = year ∧ date.month = month ∧ date.day = day := by
  rw [ofFields?] at hdate
  split at hdate
  · obtain rfl := Option.some.inj hdate
    exact ⟨rfl, rfl, rfl⟩
  · contradiction

/-- The earlier date: of an earlier year, or of an earlier month of it, or of an
earlier day of that. -/
protected def Before (date other : Date) : Prop :=
  date.year < other.year ∨ date.year = other.year ∧
    (date.month < other.month ∨ date.month = other.month ∧ date.day < other.day)

theorem number_lt_daysBeforeMonth (date : Date) :
    date.number < daysBeforeYear date.year + daysBeforeMonth date.year (date.month + 1) := by
  have hday := date.day_mem
  rw [number, daysBeforeMonth_succ date.year date.month_mem.1]
  omega

theorem number_lt_daysBeforeYear (date : Date) :
    date.number < daysBeforeYear (date.year + 1) := by
  have hmonths : daysBeforeMonth date.year (date.month + 1) ≤ daysInYear date.year :=
    daysBeforeMonth_thirteen date.year ▸
      monotone_daysBeforeMonth date.year (Nat.succ_le_succ date.month_mem.2)
  have hnumber := date.number_lt_daysBeforeMonth
  rw [daysBeforeYear_succ]
  omega

theorem Before.number_lt (hbefore : date.Before other) : date.number < other.number := by
  obtain hyear | ⟨hyear, hmonth | ⟨hmonth, hday⟩⟩ := hbefore
  · calc date.number < daysBeforeYear (date.year + 1) := date.number_lt_daysBeforeYear
      _ ≤ daysBeforeYear other.year := monotone_daysBeforeYear hyear
      _ ≤ other.number := Nat.le_add_right_of_le (Nat.le_add_right _ _)
  · calc date.number < daysBeforeYear date.year + daysBeforeMonth date.year (date.month + 1) :=
          date.number_lt_daysBeforeMonth
      _ ≤ daysBeforeYear other.year + daysBeforeMonth other.year other.month := by
          rw [hyear]
          exact Nat.add_le_add_left (monotone_daysBeforeMonth _ hmonth) _
      _ ≤ other.number := Nat.le_add_right _ _
  · have hfirst := date.day_mem.1
    rw [number, number, hyear, hmonth]
    omega

theorem trichotomy (date other : Date) : date.Before other ∨ date = other ∨ other.Before date := by
  obtain ⟨year, month, day, -, -, -⟩ := date
  obtain ⟨year', month', day', -, -, -⟩ := other
  simp only [Date.Before, mk.injEq]
  omega

/-- The days of the calendar are in the order of their numbers. -/
theorem number_lt_number_iff : date.number < other.number ↔ date.Before other := by
  refine ⟨fun hlt => ?_, Before.number_lt⟩
  obtain hbefore | rfl | hafter := trichotomy date other
  · exact hbefore
  · exact absurd hlt (lt_irrefl _)
  · exact absurd hlt hafter.number_lt.le.not_gt

theorem number_injective : Function.Injective number := by
  intro date other heq
  obtain hbefore | rfl | hafter := trichotomy date other
  · exact absurd heq hbefore.number_lt.ne
  · rfl
  · exact absurd heq hafter.number_lt.ne'

end Date

namespace Clock

def ofFields? (hour minute second : ℕ) : Option Clock :=
  if h : hour < 24 ∧ minute < 60 ∧ second ≤ 60 then
    some ⟨hour, minute, second, h.1, h.2.1, h.2.2⟩
  else none

theorem ofFields?_fields (clock : Clock) :
    ofFields? clock.hour clock.minute clock.second = some clock :=
  dif_pos ⟨clock.hour_lt, clock.minute_lt, clock.second_le⟩

theorem eq_of_ofFields? {clock : Clock} {hour minute second : ℕ}
    (hclock : ofFields? hour minute second = some clock) :
    clock.hour = hour ∧ clock.minute = minute ∧ clock.second = second := by
  rw [ofFields?] at hclock
  split at hclock
  · obtain rfl := Option.some.inj hclock
    exact ⟨rfl, rfl, rfl⟩
  · contradiction

/-- Whether the time is a leap second, which is said to be the one before it still. -/
def isLeap (clock : Clock) : Bool := clock.second = 60

/-- The seconds of the day before this one. -/
def seconds (clock : Clock) : ℕ := 3600 * clock.hour + 60 * clock.minute + min clock.second 59

/-- The seconds from one time to another of one day, a leap second between them
counted. -/
def since (clock earlier : Clock) : ℤ :=
  let adjusted : ℤ :=
    if earlier.seconds < clock.seconds ∧ earlier.isLeap then 1
    else if clock.seconds < earlier.seconds ∧ clock.isLeap then -1
    else 0
  (clock.seconds : ℤ) - earlier.seconds + adjusted +
    ((if clock.isLeap then 1 else 0) - if earlier.isLeap then 1 else 0)

/-- The earlier time: of an earlier hour, or of an earlier minute of it, or of an
earlier second of that. -/
protected def Before (clock other : Clock) : Prop :=
  clock.hour < other.hour ∨ clock.hour = other.hour ∧
    (clock.minute < other.minute ∨ clock.minute = other.minute ∧ clock.second < other.second)

variable {clock other : Clock}

theorem seconds_lt (clock : Clock) : clock.seconds < 86400 := by
  have hhour := clock.hour_lt
  have hminute := clock.minute_lt
  rw [seconds]
  omega

theorem trichotomy (clock other : Clock) :
    clock.Before other ∨ clock = other ∨ other.Before clock := by
  obtain ⟨hour, minute, second, -, -, -⟩ := clock
  obtain ⟨hour', minute', second', -, -, -⟩ := other
  simp only [Clock.Before, mk.injEq]
  omega

/-- Two times are of one second only where the later is a leap second and the earlier
is not. -/
theorem Before.seconds_lt (hbefore : clock.Before other)
    (hleap : other.isLeap = false ∨ clock.isLeap = true) : clock.seconds < other.seconds := by
  have hminute := clock.minute_lt
  have hsecond := other.second_le
  simp only [isLeap, decide_eq_false_iff_not, decide_eq_true_eq] at hleap
  rw [Clock.Before] at hbefore
  rw [seconds, seconds]
  omega

variable {now : Clock}

theorem since_of_not_leap (hnow : now.isLeap = false) (earlier : Clock) :
    now.since earlier = (now.seconds : ℤ) - earlier.seconds -
      if earlier.isLeap ∧ now.seconds ≤ earlier.seconds then 1 else 0 := by
  cases hearlier : earlier.isLeap
  · simp [since, hnow, hearlier]
  · simp only [since, hnow, hearlier, Bool.false_eq_true, and_true, and_false, true_and, if_false,
      if_true]
    split_ifs <;> omega

end Clock

namespace Moment

/-- The seconds from one moment to another. -/
def since (moment earlier : Moment) : ℤ :=
  86400 * ((moment.date.number : ℤ) - earlier.date.number) + moment.clock.since earlier.clock

/-- The earlier moment: of an earlier date, or at an earlier time of it. -/
protected def Before (moment other : Moment) : Prop :=
  moment.date.Before other.date ∨ moment.date = other.date ∧ moment.clock.Before other.clock

variable {moment other now : Moment}

theorem trichotomy (moment other : Moment) :
    moment.Before other ∨ moment = other ∨ other.Before moment := by
  obtain hdate | hdate | hdate := Date.trichotomy moment.date other.date
  · exact .inl (.inl hdate)
  · obtain hclock | hclock | hclock := Clock.trichotomy moment.clock other.clock
    · exact .inl (.inr ⟨hdate, hclock⟩)
    · obtain ⟨date, clock⟩ := moment
      obtain ⟨date', clock'⟩ := other
      dsimp only at hdate hclock
      exact .inr (.inl (by rw [hdate, hclock]))
    · exact .inr (.inr (.inr ⟨hdate.symm, hclock⟩))
  · exact .inr (.inr (.inl hdate))

theorem since_self (moment : Moment) : moment.since moment = 0 := by
  simp [since, Clock.since]

/-- Where neither is a leap second, the earlier moment is the one that is some seconds
before. -/
theorem since_pos_iff (hmoment : moment.clock.isLeap = false)
    (hother : other.clock.isLeap = false) :
    0 < other.since moment ↔ moment.Before other := by
  have hforth {first second : Moment} (hfirst : first.clock.isLeap = false)
      (hsecond : second.clock.isLeap = false) (hbefore : first.Before second) :
      0 < second.since first := by
    have hlast := first.clock.seconds_lt
    rw [since, Clock.since_of_not_leap hsecond, if_neg (by simp [hfirst])]
    obtain hdate | ⟨hdate, hclock⟩ := hbefore
    · have hnumber := Date.number_lt_number_iff.mpr hdate
      omega
    · have hlt := hclock.seconds_lt (.inl hsecond)
      rw [hdate]
      omega
  refine ⟨fun hpos => ?_, hforth hmoment hother⟩
  obtain hbefore | rfl | hafter := trichotomy moment other
  · exact hbefore
  · rw [since_self] at hpos
    exact absurd hpos (lt_irrefl _)
  · have hback := hforth hother hmoment hafter
    rw [since, Clock.since_of_not_leap hother, if_neg (by simp [hmoment])] at hpos
    rw [since, Clock.since_of_not_leap hmoment, if_neg (by simp [hother])] at hback
    omega

end Moment

end EasyWaf.Core.Calendar

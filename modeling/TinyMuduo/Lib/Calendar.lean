import Mathlib.Data.Int.ConditionallyCompleteOrder
import Mathlib.Algebra.Order.Ring.Int
import Mathlib.Order.GaloisConnection.Basic
import Mathlib.Data.List.Lex
import Mathlib.Order.SuccPred.IntervalSucc
import Mathlib.Tactic.IntervalCases

/-!
# Lib.Calendar

Days counted in blocks, and the proleptic Gregorian calendar.

* `Blocks.start p q s h` — the first day of block `h`, when `q` blocks have `p` days together and
  their lengths differ by one day at most. `Blocks.index` — the block of a day. The two are a
  Galois connection, so that integer division finds the block (`Blocks.index_eq`).
* `CivilDate` — a year, a month and a day that exist, in the order of the calendar; `next` — the
  following date.
* `dayNumber` — the days since March 1 of the year 0. It counts the dates one by one
  (`dayNumber_next`, `dayNumber_strictMono`, `exists_dayNumber`).

Months are numbered from March on, so that the leap day is the last day of a year
(`monthBegin_succ`).
-/

namespace Blocks

variable {p q s h n : Int}

def start (p q s h : Int) : Int := (p * h + s) / q

def index (p q s n : Int) : Int := (q * n + (q - 1 - s)) / p

theorem gc (hp : 0 < p) (hq : 0 < q) : GaloisConnection (start p q s) (index p q s) := by
  intro h n
  calc start p q s h ≤ n
    _ ↔ (p * h + s) / q < n + 1 := Int.lt_add_one_iff.symm
    _ ↔ p * h + s < (n + 1) * q := Int.ediv_lt_iff_lt_mul hq
    _ ↔ h * p ≤ q * n + (q - 1 - s) := by
      rw [Int.add_mul, Int.one_mul, Int.mul_comm n q, Int.mul_comm h p]
      omega
    _ ↔ h ≤ index p q s n := (Int.le_ediv_iff_mul_le hp).symm

/-- A day lies in the block that starts before it and ends after it. -/
theorem index_eq (hp : 0 < p) (hq : 0 < q) (hle : start p q s h ≤ n)
    (hlt : n < start p q s (h + 1)) : index p q s n = h := by
  have h₁ : h ≤ index p q s n := (gc hp hq h n).1 hle
  have h₂ : ¬ h + 1 ≤ index p q s n := fun hc => (((gc hp hq (h + 1) n).2 hc).trans_lt hlt).false
  omega

end Blocks

namespace Calendar

def IsLeapYear (year : Int) : Prop := year % 4 = 0 ∧ (year % 100 ≠ 0 ∨ year % 400 = 0)

instance (year : Int) : Decidable (IsLeapYear year) :=
  inferInstanceAs (Decidable (year % 4 = 0 ∧ (year % 100 ≠ 0 ∨ year % 400 = 0)))

def daysInMonth (year month : Int) : Int :=
  if month = 2 then if IsLeapYear year then 29 else 28
  else if month = 4 ∨ month = 6 ∨ month = 9 ∨ month = 11 then 30
  else 31

theorem le_daysInMonth (year month : Int) : 28 ≤ daysInMonth year month := by
  rw [daysInMonth]
  split_ifs <;> omega

theorem daysInMonth_le (year month : Int) : daysInMonth year month ≤ 31 := by
  rw [daysInMonth]
  split_ifs <;> omega

end Calendar

open Calendar

structure CivilDate where
  year : Int
  month : Int
  day : Int
  month_pos : 1 ≤ month
  month_le : month ≤ 12
  day_pos : 1 ≤ day
  day_le : day ≤ daysInMonth year month
  deriving DecidableEq, Repr

namespace CivilDate

variable {x y : CivilDate}

def fields (x : CivilDate) : List Int := [x.year, x.month, x.day]

theorem fields_injective : Function.Injective fields := by
  intro x y h
  cases x
  cases y
  simp only [fields, List.cons.injEq, and_true] at h
  simp only [mk.injEq]
  exact h

instance : LinearOrder CivilDate := LinearOrder.lift' fields fields_injective

theorem lt_iff : x < y ↔ x.year < y.year ∨
    x.year = y.year ∧ (x.month < y.month ∨ x.month = y.month ∧ x.day < y.day) := by
  show x.fields < y.fields ↔ _
  simp only [fields, List.cons_lt_cons_iff, List.not_lt_nil, and_false, or_false]

def next (x : CivilDate) : CivilDate :=
  if hday : x.day < daysInMonth x.year x.month then
    { x with day := x.day + 1, day_pos := by have := x.day_pos; omega, day_le := hday }
  else if hmonth : x.month < 12 then
    { year := x.year, month := x.month + 1, day := 1
      month_pos := by have := x.month_pos; omega
      month_le := hmonth
      day_pos := le_rfl
      day_le := by have := le_daysInMonth x.year (x.month + 1); omega }
  else
    { year := x.year + 1, month := 1, day := 1
      month_pos := le_rfl
      month_le := by decide
      day_pos := le_rfl
      day_le := by have := le_daysInMonth (x.year + 1) 1; omega }

theorem next_year_le (x : CivilDate) : x.next.year ≤ x.year + 1 := by
  rw [next]
  split_ifs
  · exact Int.le_add_one le_rfl
  · exact Int.le_add_one le_rfl
  · exact le_rfl

def newYear (year : Int) : CivilDate where
  year := year
  month := 1
  day := 1
  month_pos := le_rfl
  month_le := by decide
  day_pos := le_rfl
  day_le := by have := le_daysInMonth year 1; omega

theorem newYear_le (x : CivilDate) : newYear x.year ≤ x := by
  have hmonth := x.month_pos
  have hday := x.day_pos
  refine not_lt.1 fun hlt => ?_
  have h : x.year < x.year ∨ x.year = x.year ∧ (x.month < 1 ∨ x.month = 1 ∧ x.day < 1) :=
    lt_iff.1 hlt
  omega

/-! ## Counting days -/

/-- The days before year `y` of those that begin in March. -/
def yearStart (y : Int) : Int := 365 * y + y / 4 - y / 100 + y / 400

/-- The days before month `m` in such a year: five months have 153 days. -/
def monthStart (m : Int) : Int := Blocks.start 153 5 2 m

/-- The days before month `i`, counted from March of the year 0. -/
def monthBegin (i : Int) : Int := yearStart (i / 12) + monthStart (i % 12)

def monthIndex (x : CivilDate) : Int := 12 * x.year + x.month - 3

def dayNumber (x : CivilDate) : Int := monthBegin x.monthIndex + x.day - 1

theorem monthBegin_eq (y m : Int) (h0 : 0 ≤ m) (h12 : m < 12) :
    monthBegin (12 * y + m) = 365 * y + y / 4 - y / 100 + y / 400 + (153 * m + 2) / 5 := by
  have hy : (12 * y + m) / 12 = y := by omega
  have hm : (12 * y + m) % 12 = m := by omega
  rw [monthBegin, hy, hm, yearStart, monthStart, Blocks.start]

/-- From March to December, five blocks of 153 days have the lengths of the months. -/
theorem monthStart_succ (month : Int) (h3 : 3 ≤ month) (h12 : month ≤ 12) :
    (153 * (month - 2) + 2) / 5 = (153 * (month - 3) + 2) / 5 +
      if month = 4 ∨ month = 6 ∨ month = 9 ∨ month = 11 then 30 else 31 := by
  interval_cases month <;> rfl

theorem monthBegin_succ (year month : Int) (h1 : 1 ≤ month) (h12 : month ≤ 12) :
    monthBegin (12 * year + month - 3 + 1) =
      monthBegin (12 * year + month - 3) + daysInMonth year month := by
  rcases (show month ≤ 1 ∨ month = 2 ∨ 3 ≤ month by omega) with h | rfl | h
  · -- January
    obtain rfl : month = 1 := by omega
    rw [show 12 * year + 1 - 3 + 1 = 12 * (year - 1) + 11 by omega,
      show 12 * year + 1 - 3 = 12 * (year - 1) + 10 by omega, monthBegin_eq _ _ (by decide)
      (by decide), monthBegin_eq _ _ (by decide) (by decide), daysInMonth, if_neg (by decide),
      if_neg (by decide)]
    omega
  · -- the last month of a year that began in March
    rw [show 12 * year + 2 - 3 + 1 = 12 * year + 0 by omega,
      show 12 * year + 2 - 3 = 12 * (year - 1) + 11 by omega, monthBegin_eq _ _ (by decide)
      (by decide), monthBegin_eq _ _ (by decide) (by decide), daysInMonth, if_pos rfl]
    split_ifs with hleap
    · obtain ⟨h4, hcent⟩ := hleap
      omega
    · have : year % 4 ≠ 0 ∨ year % 100 = 0 ∧ year % 400 ≠ 0 := by
        rw [IsLeapYear] at hleap
        tauto
      omega
  · rw [show 12 * year + month - 3 + 1 = 12 * year + (month - 2) by omega,
      show 12 * year + month - 3 = 12 * year + (month - 3) by omega, monthBegin_eq _ _ (by omega)
      (by omega), monthBegin_eq _ _ (by omega) (by omega), daysInMonth,
      if_neg (show ¬ month = 2 by omega), monthStart_succ month h h12]
    exact (Int.add_assoc _ _ _).symm

theorem monthBegin_lt_succ (i : Int) : monthBegin i < monthBegin (i + 1) := by
  have hi : i = 12 * ((i + 2) / 12) + ((i + 2) % 12 + 1) - 3 := by omega
  have hsucc := monthBegin_succ ((i + 2) / 12) ((i + 2) % 12 + 1) (by omega) (by omega)
  have hdays := le_daysInMonth ((i + 2) / 12) ((i + 2) % 12 + 1)
  rw [← hi] at hsucc
  omega

theorem monthBegin_strictMono : StrictMono monthBegin :=
  strictMono_int_of_lt_succ monthBegin_lt_succ

theorem monthBegin_le_dayNumber (x : CivilDate) : monthBegin x.monthIndex ≤ x.dayNumber := by
  have := x.day_pos
  rw [dayNumber]
  omega

theorem dayNumber_lt_monthBegin (x : CivilDate) :
    x.dayNumber < monthBegin (x.monthIndex + 1) := by
  have hsucc := monthBegin_succ x.year x.month x.month_pos x.month_le
  have := x.day_le
  rw [dayNumber, monthIndex, hsucc]
  omega

/-- The day of a date is one of its block of days. February is shorter than its block. -/
theorem day_le_monthStart (x : CivilDate) :
    monthStart (x.monthIndex % 12) + x.day ≤ monthStart (x.monthIndex % 12 + 1) := by
  rcases (show x.monthIndex % 12 < 11 ∨ x.monthIndex % 12 = 11 by omega) with h | h
  · have hlt := x.dayNumber_lt_monthBegin
    have hyear : (x.monthIndex + 1) / 12 = x.monthIndex / 12 := by omega
    have hmonth : (x.monthIndex + 1) % 12 = x.monthIndex % 12 + 1 := by omega
    rw [dayNumber, monthBegin, monthBegin, hyear, hmonth] at hlt
    omega
  · have hpos := x.month_pos
    have hle := x.month_le
    have hfebruary : x.month = 2 := by
      rw [monthIndex] at h
      omega
    have hday : x.day ≤ 29 := by
      refine x.day_le.trans ?_
      rw [daysInMonth, if_pos hfebruary]
      split_ifs <;> decide
    rw [h]
    exact (Int.add_le_add_left hday _).trans (by decide)

theorem dayNumber_lt_yearStart (x : CivilDate) :
    x.dayNumber < yearStart (x.monthIndex / 12 + 1) := by
  have hnext : monthBegin (12 * (x.monthIndex / 12 + 1) + 0) = yearStart (x.monthIndex / 12 + 1) :=
    (monthBegin_eq _ 0 le_rfl (by decide)).trans (Int.add_zero _)
  calc x.dayNumber
    _ < monthBegin (x.monthIndex + 1) := x.dayNumber_lt_monthBegin
    _ ≤ monthBegin (12 * (x.monthIndex / 12 + 1) + 0) := monthBegin_strictMono.monotone (by omega)
    _ = yearStart (x.monthIndex / 12 + 1) := hnext

theorem dayNumber_strictMono : StrictMono dayNumber := by
  intro x y h
  have hx := x.month_le
  have hy := y.month_pos
  have hmonth : x.monthIndex < y.monthIndex ∨ x.monthIndex = y.monthIndex ∧ x.day < y.day := by
    rw [lt_iff] at h
    simp only [monthIndex]
    omega
  rcases hmonth with hlt | ⟨heq, hday⟩
  · calc x.dayNumber
      _ < monthBegin (x.monthIndex + 1) := x.dayNumber_lt_monthBegin
      _ ≤ monthBegin y.monthIndex := monthBegin_strictMono.monotone hlt
      _ ≤ y.dayNumber := y.monthBegin_le_dayNumber
  · rw [dayNumber, dayNumber, heq]
    omega

theorem dayNumber_next (x : CivilDate) : x.next.dayNumber = x.dayNumber + 1 := by
  have hsucc := monthBegin_succ x.year x.month x.month_pos x.month_le
  have hday := x.day_le
  have hmonth := x.month_le
  rw [next]
  split_ifs with h₁ h₂
  · show monthBegin x.monthIndex + (x.day + 1) - 1 = monthBegin x.monthIndex + x.day - 1 + 1
    omega
  · show monthBegin (12 * x.year + (x.month + 1) - 3) + 1 - 1 = _
    rw [show 12 * x.year + (x.month + 1) - 3 = 12 * x.year + x.month - 3 + 1 by omega, hsucc,
      dayNumber, monthIndex]
    omega
  · show monthBegin (12 * (x.year + 1) + 1 - 3) + 1 - 1 = _
    rw [show 12 * (x.year + 1) + 1 - 3 = 12 * x.year + x.month - 3 + 1 by omega, hsucc,
      dayNumber, monthIndex]
    omega

/-- Every day from a date on has a date. -/
theorem exists_dayNumber (x : CivilDate) {n : Int} (h : x.dayNumber ≤ n) :
    ∃ y, x ≤ y ∧ y.dayNumber = n := by
  obtain ⟨k, rfl⟩ := Int.le.dest h
  obtain ⟨y, hy⟩ : ∃ y, dayNumber y = x.dayNumber + k := by
    induction k with
    | zero => exact ⟨x, (Int.add_zero _).symm⟩
    | succ k ih =>
      obtain ⟨y, hy⟩ := ih (by omega)
      exact ⟨y.next, by rw [dayNumber_next, hy, Nat.cast_succ, Int.add_assoc]⟩
  exact ⟨y, dayNumber_strictMono.le_iff_le.1 (by omega), hy⟩

end CivilDate

import TinyMuduo.Lib.Calendar
import TinyMuduo.Lib.Signed

/-!
# Date.Julian

`Date`: a day by its Julian day number, and the conversions from and to year, month and day.

All arithmetic is that of `int`, and a function has no result when one of its intermediate values
overflows. From March 1 of the year -4800 on nothing is negative, so that the truncating divisions
find blocks of days: the century, the year in it and the month in it. `getYearMonthDay` is the first
to overflow, at `4 * a` on the day after `lastDay`.
-/

namespace TinyMuduo

open Signed CivilDate

structure YearMonthDay where
  year : Int
  month : Int
  day : Int
  deriving DecidableEq, Repr

def getJulianDayNumber (year month day : Int) : Option Int := do
  let a ← eval 32 ((14 - month) / 12)
  let y ← eval 32 (year + 4800 - a)
  let m ← eval 32 (month + 12 * a - 3)
  eval 32 (day + (153 * m + 2) / 5 + y * 365 + y / 4 - y / 100 + y / 400 - 32045)

def getYearMonthDay (julianDayNumber : Int) : Option YearMonthDay := do
  let a ← eval 32 (julianDayNumber + 32044)
  let b ← eval 32 ((4 * a + 3) / 146097)
  let c ← eval 32 (a - (b * 146097) / 4)
  let d ← eval 32 ((4 * c + 3) / 1461)
  let e ← eval 32 (c - (1461 * d) / 4)
  let m ← eval 32 ((5 * e + 2) / 153)
  let day ← eval 32 (e - (153 * m + 2) / 5 + 1)
  let month ← eval 32 (m + 3 - 12 * (m / 10))
  let year ← eval 32 (b * 100 + d - 4800 + m / 10)
  some ⟨year, month, day⟩

structure Date where
  julianDayNumber : Int
  deriving DecidableEq, Repr

namespace Date

/-- `Date(year, month, day)`. -/
def ofYearMonthDay (year month day : Int) : Option Date :=
  (getJulianDayNumber year month day).map Date.mk

def valid (d : Date) : Bool := decide (d.julianDayNumber > 0)

def yearMonthDay (d : Date) : Option YearMonthDay := getYearMonthDay d.julianDayNumber

def kDaysPerWeek : Int := 7

def weekDay (d : Date) : Option Int := eval 32 ((d.julianDayNumber + 1) % kDaysPerWeek)

end Date

def YearMonthDay.ofCivil (x : CivilDate) : YearMonthDay := ⟨x.year, x.month, x.day⟩

def firstDay : CivilDate where
  year := -4800
  month := 3
  day := 1
  month_pos := by decide
  month_le := by decide
  day_pos := by decide
  day_le := by decide

def lastDay : CivilDate where
  year := 1465102
  month := 10
  day := 18
  month_pos := by decide
  month_le := by decide
  day_pos := by decide
  day_le := by decide

/-- Day 0 of the calendar is March 1 of the year 0. -/
def julianDay (x : CivilDate) : Int := x.dayNumber + 1721120

theorem julianDay_strictMono : StrictMono julianDay := fun _ _ h =>
  Int.add_lt_add_right (dayNumber_strictMono h) _

/-! ## The two conversions -/

section
variable {x : CivilDate}

/-- The year `y` and the month `m` of a date as the functions count them, from March of -4800 on. -/
structure Shifted (x : CivilDate) (a y m : Int) : Prop where
  a_eq : a = (14 - x.month) / 12
  y_eq : y = x.year + 4800 - a
  m_eq : m = x.month + 12 * a - 3
  y_nonneg : 0 ≤ y
  m_nonneg : 0 ≤ m
  m_le : m ≤ 11
  /-- Where the day is in its year. -/
  day_eq : julianDay x + 32044 = yearStart y + (153 * m + 2) / 5 + (x.day - 1)
  day_lt_year : julianDay x + 32044 < yearStart (y + 1)
  day_le_month : (153 * m + 2) / 5 + x.day ≤ (153 * (m + 1) + 2) / 5

theorem yearStart_add (y : Int) : yearStart (y + 4800) = yearStart y + 1753164 := by
  simp only [yearStart]
  omega

theorem exists_shifted (h : firstDay ≤ x) : ∃ a y m, Shifted x a y m := by
  have hpos := x.month_pos
  have hle := x.month_le
  have hday := x.day_pos
  have hfirst : ¬ (x.year < -4800 ∨ x.year = -4800 ∧ (x.month < 3 ∨ x.month = 3 ∧ x.day < 1)) :=
    fun hlt => not_lt.2 h (lt_iff.2 hlt)
  obtain ⟨a, ha⟩ : ∃ a, a = (14 - x.month) / 12 := ⟨_, rfl⟩
  have hyear : x.monthIndex / 12 = x.year - a := by
    rw [monthIndex]
    omega
  have hmonth : x.monthIndex % 12 = x.month + 12 * a - 3 := by
    rw [monthIndex]
    omega
  have hshift : x.year + 4800 - a = x.year - a + 4800 := by omega
  refine ⟨a, _, _, ha, rfl, rfl, by omega, by omega, by omega, ?_, ?_, ?_⟩
  · rw [julianDay, dayNumber, monthBegin, hyear, hmonth, hshift, yearStart_add, monthStart,
      Blocks.start]
    omega
  · have hlt := x.dayNumber_lt_yearStart
    rw [hyear] at hlt
    rw [julianDay, hshift, show x.year - a + 4800 + 1 = x.year - a + 1 + 4800 by omega,
      yearStart_add]
    omega
  · have hblock := x.day_le_monthStart
    rw [hmonth] at hblock
    exact hblock

/-- The last line of `getJulianDayNumber`. -/
theorem eval_days {day m y : Int} (hday : 1 ≤ day ∧ day ≤ 31) (hm : 0 ≤ m ∧ m ≤ 11)
    (hy : 0 ≤ y ∧ y ≤ 2004800) :
    eval 32 (day + (153 * m + 2) / 5 + y * 365 + y / 4 - y / 100 + y / 400 - 32045) =
      some (day + (153 * m + 2) / 5 + y * 365 + y / 4 - y / 100 + y / 400 - 32045) := by
  simp (disch := omega) only [ofNat_eq, intCast_add, intCast_sub, intCast_mul, intCast_div,
    eval_intCast]

theorem eval_shift (year month a : Int) (hyear : -5000 ≤ year ∧ year ≤ 2000000)
    (hmonth : 1 ≤ month ∧ month ≤ 12) (ha : 0 ≤ a ∧ a ≤ 1) :
    eval 32 ((14 - month) / 12) = some ((14 - month) / 12) ∧
    eval 32 (year + 4800 - a) = some (year + 4800 - a) ∧
    eval 32 (month + 12 * a - 3) = some (month + 12 * a - 3) := by
  refine ⟨?_, ?_, ?_⟩
  · simp (disch := omega) only [ofNat_eq, intCast_sub, intCast_div, eval_intCast]
  · simp (disch := omega) only [ofNat_eq, intCast_add, intCast_sub, eval_intCast]
  · simp (disch := omega) only [ofNat_eq, intCast_add, intCast_sub, intCast_mul, eval_intCast]

theorem getJulianDayNumber_eq (h : firstDay ≤ x) (hyear : x.year ≤ 2000000) :
    getJulianDayNumber x.year x.month x.day = some (julianDay x) := by
  obtain ⟨a, y, m, ha, hy, hm, hy0, hm0, hm11, hday, -, hmonth⟩ := exists_shifted h
  have hpos := x.month_pos
  have hle := x.month_le
  have hday' := x.day_pos
  obtain ⟨evalA, evalY, evalM⟩ :=
    eval_shift x.year x.month a (by omega) (by omega) (by omega)
  rw [← ha] at evalA
  rw [← hy] at evalY
  rw [← hm] at evalM
  rw [yearStart] at hday
  rw [getJulianDayNumber, bind_of_eq_some evalA, bind_of_eq_some evalY, bind_of_eq_some evalM,
    eval_days (by omega) (by omega) (by omega)]
  congr 1
  omega

/-! A day lies in a block of days for its century, one for its year and one for its month. -/

theorem yearStart_split (y : Int) :
    yearStart y = y / 100 * 146097 / 4 + 1461 * (y % 100) / 4 := by
  have hcentury : y / 100 * 146097 / 4 = 36524 * (y / 100) + y / 400 := by omega
  have hyear : 1461 * (y % 100) / 4 = 365 * (y % 100) + y % 100 / 4 := by omega
  have hleap : y / 4 = 25 * (y / 100) + y % 100 / 4 := by omega
  rw [yearStart, hcentury, hyear, hleap]
  omega

theorem yearStart_succ_le (y : Int) :
    yearStart (y + 1) ≤ y / 100 * 146097 / 4 + 1461 * (y % 100 + 1) / 4 := by
  rw [yearStart_split]
  rcases (show y % 100 < 99 ∨ y % 100 = 99 by omega) with h | h
  · have hcentury : (y + 1) / 100 = y / 100 := by omega
    have hyear : (y + 1) % 100 = y % 100 + 1 := by omega
    rw [hcentury, hyear]
  · -- the last year of a century has no leap day, except for every fourth one
    have hcentury : (y + 1) / 100 = y / 100 + 1 := by omega
    have hyear : (y + 1) % 100 = 0 := by omega
    rw [hcentury, hyear, h]
    omega

theorem century_of_day {y n : Int} (hle : yearStart y ≤ n) (hlt : n < yearStart (y + 1)) :
    (4 * n + 3) / 146097 = y / 100 := by
  refine Blocks.index_eq (p := 146097) (q := 4) (s := 0) (by decide) (by decide) ?_ ?_
  · rw [yearStart] at hle
    rw [Blocks.start]
    omega
  · rw [yearStart] at hlt
    rw [Blocks.start]
    omega

theorem year_of_day {y n c : Int} (hle : yearStart y ≤ n) (hlt : n < yearStart (y + 1))
    (hc : c = n - y / 100 * 146097 / 4) : (4 * c + 3) / 1461 = y % 100 := by
  have hsplit := yearStart_split y
  have hsucc := yearStart_succ_le y
  refine Blocks.index_eq (p := 1461) (q := 4) (s := 0) (by decide) (by decide) ?_ ?_
  · rw [Blocks.start]
    omega
  · rw [Blocks.start]
    omega

theorem month_of_day {m e : Int} (hle : (153 * m + 2) / 5 ≤ e)
    (hlt : e < (153 * (m + 1) + 2) / 5) : (5 * e + 2) / 153 = m :=
  Blocks.index_eq (p := 153) (q := 5) (s := 2) (by decide) (by decide) hle hlt

theorem eval_century {a b : Int} (ha : 0 ≤ a ∧ a ≤ 536870911) (hb : 0 ≤ b ∧ b ≤ 14699) :
    eval 32 ((4 * a + 3) / 146097) = some ((4 * a + 3) / 146097) ∧
    eval 32 (a - (b * 146097) / 4) = some (a - b * 146097 / 4) := by
  refine ⟨?_, ?_⟩
  · simp (disch := omega) only [ofNat_eq, intCast_add, intCast_mul, intCast_div, eval_intCast]
  · simp (disch := omega) only [ofNat_eq, intCast_sub, intCast_mul, intCast_div, eval_intCast]

theorem eval_yearOfCentury {c d : Int} (hc : 0 ≤ c ∧ c ≤ 36524) (hd : 0 ≤ d ∧ d ≤ 99) :
    eval 32 ((4 * c + 3) / 1461) = some ((4 * c + 3) / 1461) ∧
    eval 32 (c - (1461 * d) / 4) = some (c - 1461 * d / 4) := by
  refine ⟨?_, ?_⟩
  · simp (disch := omega) only [ofNat_eq, intCast_add, intCast_mul, intCast_div, eval_intCast]
  · simp (disch := omega) only [ofNat_eq, intCast_sub, intCast_mul, intCast_div, eval_intCast]

theorem eval_monthOfYear {e m : Int} (he : 0 ≤ e ∧ e ≤ 365) (hm : 0 ≤ m ∧ m ≤ 11) :
    eval 32 ((5 * e + 2) / 153) = some ((5 * e + 2) / 153) ∧
    eval 32 (e - (153 * m + 2) / 5 + 1) = some (e - (153 * m + 2) / 5 + 1) ∧
    eval 32 (m + 3 - 12 * (m / 10)) = some (m + 3 - 12 * (m / 10)) := by
  refine ⟨?_, ?_, ?_⟩
  · simp (disch := omega) only [ofNat_eq, intCast_add, intCast_mul, intCast_div, eval_intCast]
  · simp (disch := omega) only [ofNat_eq, intCast_add, intCast_sub, intCast_mul, intCast_div,
      eval_intCast]
  · simp (disch := omega) only [ofNat_eq, intCast_add, intCast_sub, intCast_mul, intCast_div,
      eval_intCast]

theorem eval_year {b d m : Int} (hb : 0 ≤ b ∧ b ≤ 14699) (hd : 0 ≤ d ∧ d ≤ 99)
    (hm : 0 ≤ m ∧ m ≤ 11) :
    eval 32 (b * 100 + d - 4800 + m / 10) = some (b * 100 + d - 4800 + m / 10) := by
  simp (disch := omega) only [ofNat_eq, intCast_add, intCast_sub, intCast_mul, intCast_div,
    eval_intCast]

/-- What the variables of `getYearMonthDay` hold, while `4 * a` does not overflow. -/
theorem getYearMonthDay_steps {n a b c d e m : Int} (ha : n + 32044 = a) (h0 : 0 ≤ a)
    (hmax : a ≤ 536870911) (hb : (4 * a + 3) / 146097 = b) (hc : a - b * 146097 / 4 = c)
    (hd : (4 * c + 3) / 1461 = d) (he : c - 1461 * d / 4 = e) (hm : (5 * e + 2) / 153 = m) :
    getYearMonthDay n =
      some ⟨b * 100 + d - 4800 + m / 10, m + 3 - 12 * (m / 10), e - (153 * m + 2) / 5 + 1⟩ := by
  have hb0 : 0 ≤ b ∧ b ≤ 14699 := by omega
  have hc0 : 0 ≤ c ∧ c ≤ 36524 := by omega
  have hd0 : 0 ≤ d ∧ d ≤ 99 := by omega
  have he0 : 0 ≤ e ∧ e ≤ 365 := by omega
  have hm0 : 0 ≤ m ∧ m ≤ 11 := by omega
  have evalA : eval 32 (n + 32044) = some a := by
    simp (disch := omega) only [ofNat_eq, intCast_add, eval_intCast, ha]
  obtain ⟨evalB, evalC⟩ := eval_century ⟨h0, hmax⟩ hb0
  obtain ⟨evalD, evalE⟩ := eval_yearOfCentury hc0 hd0
  obtain ⟨evalM, evalDay, evalMonth⟩ := eval_monthOfYear he0 hm0
  rw [getYearMonthDay, bind_of_eq_some evalA, bind_of_eq_some evalB, hb, bind_of_eq_some evalC, hc,
    bind_of_eq_some evalD, hd, bind_of_eq_some evalE, he, bind_of_eq_some evalM, hm,
    bind_of_eq_some evalDay, bind_of_eq_some evalMonth, bind_of_eq_some (eval_year hb0 hd0 hm0)]

theorem getYearMonthDay_eq (h : firstDay ≤ x) (hlast : julianDay x ≤ 536838867) :
    getYearMonthDay (julianDay x) = some (.ofCivil x) := by
  obtain ⟨a, y, m, ha, hy, hm, hy0, hm0, hm11, hday, hyear, hmonth⟩ := exists_shifted h
  have hpos := x.day_pos
  have hten : m / 10 = a := by
    have := x.month_pos
    have := x.month_le
    omega
  have hsplit := yearStart_split y
  have h0 : 0 ≤ yearStart y := by
    rw [yearStart]
    omega
  obtain ⟨n, hn⟩ : ∃ n, julianDay x + 32044 = n := ⟨_, rfl⟩
  obtain ⟨c, hc⟩ : ∃ c, n - y / 100 * 146097 / 4 = c := ⟨_, rfl⟩
  obtain ⟨e, he⟩ : ∃ e, c - 1461 * (y % 100) / 4 = e := ⟨_, rfl⟩
  have hle : yearStart y ≤ n := by omega
  have hlt : n < yearStart (y + 1) := by omega
  have heq : e = (153 * m + 2) / 5 + (x.day - 1) := by omega
  have hmonths : (5 * e + 2) / 153 = m := month_of_day (by omega) (by omega)
  rw [getYearMonthDay_steps hn (h0.trans hle) (by omega) (century_of_day hle hlt) hc
    (year_of_day hle hlt hc.symm) he hmonths, YearMonthDay.ofCivil, hten, heq]
  congr 2 <;> omega

end

theorem weekDay_eq {n : Int} (h0 : 0 < n) (h : n + 1 < 2147483648) :
    (Date.mk n).weekDay = some ((n + 1) % 7) := by
  rw [Date.weekDay, Date.kDaysPerWeek]
  simp (disch := omega) only [ofNat_eq, intCast_add, intCast_mod, eval_intCast]

theorem julianDay_firstDay : julianDay firstDay = -32044 := by decide

theorem julianDay_lastDay : julianDay lastDay = 536838867 := by decide

theorem year_le_of_le_lastDay {x : CivilDate} (h : x ≤ lastDay) : x.year ≤ 1465102 := by
  by_contra hgt
  exact not_lt.2 h (lt_iff.2 (Or.inl (not_le.1 hgt)))

theorem julianDay_next (x : CivilDate) : julianDay x.next = julianDay x + 1 := by
  rw [julianDay, dayNumber_next, julianDay]
  omega

/-- **Julian day numbers are the Gregorian calendar.** From March 1 of -4800 to `lastDay`, a date
has a Julian day number, which is converted back to it, and the next date has the next number. Every
number between theirs is that of a date. On the day after `lastDay` the conversion overflows. The
weekday of a valid number goes around from each day to the next. -/
theorem julian_day_is_gregorian :
    (∀ x, firstDay ≤ x → x ≤ lastDay → ∃ n, -32044 ≤ n ∧ n ≤ 536838867 ∧
      getJulianDayNumber x.year x.month x.day = some n ∧
      getYearMonthDay n = some (.ofCivil x) ∧
      getJulianDayNumber x.next.year x.next.month x.next.day = some (n + 1)) ∧
    (∀ n, -32044 ≤ n → n ≤ 536838867 → ∃ x, firstDay ≤ x ∧ x ≤ lastDay ∧
      getYearMonthDay n = some (.ofCivil x) ∧
      getJulianDayNumber x.year x.month x.day = some n) ∧
    getYearMonthDay 536838868 = none ∧
    ∀ n, (Date.mk n).valid → n + 2 < 2 ^ 31 → ∃ w, (Date.mk n).weekDay = some w ∧
      0 ≤ w ∧ w ≤ 6 ∧ (Date.mk (n + 1)).weekDay = some ((w + 1) % 7) := by
  refine ⟨fun x hfirst hlast => ?_, fun n hfirst hlast => ?_, by decide, fun n hvalid hn => ?_⟩
  · have hyear := year_le_of_le_lastDay hlast
    have hlow := julianDay_strictMono.monotone hfirst
    have hhigh := julianDay_strictMono.monotone hlast
    rw [julianDay_firstDay] at hlow
    rw [julianDay_lastDay] at hhigh
    have hnext : x < x.next := by
      rw [← julianDay_strictMono.lt_iff_lt, julianDay_next]
      omega
    refine ⟨julianDay x, hlow, hhigh, getJulianDayNumber_eq hfirst (by omega),
      getYearMonthDay_eq hfirst hhigh, ?_⟩
    rw [getJulianDayNumber_eq (hfirst.trans hnext.le) ((next_year_le x).trans (by omega)),
      julianDay_next]
  · obtain ⟨x, hx, hday⟩ := exists_dayNumber firstDay (n := n - 1721120) (by
      have := julianDay_firstDay
      rw [julianDay] at this
      omega)
    obtain rfl : n = julianDay x := by
      rw [julianDay, hday]
      omega
    have hle : x ≤ lastDay := julianDay_strictMono.le_iff_le.1 (julianDay_lastDay ▸ hlast)
    have hyear := year_le_of_le_lastDay hle
    exact ⟨x, hx, hle, getYearMonthDay_eq hx hlast, getJulianDayNumber_eq hx (by omega)⟩
  · have hpos : 0 < n := of_decide_eq_true hvalid
    refine ⟨_, weekDay_eq hpos (by omega), by omega, by omega, ?_⟩
    rw [weekDay_eq (by omega) (by omega)]
    congr 1
    omega

/-- February 29, 2000, the last day of a month that only every fourth century has. -/
theorem julian_day_is_gregorian_leap_century :
    ∃ n, getJulianDayNumber 2000 2 29 = some n ∧ getYearMonthDay n = some ⟨2000, 2, 29⟩ ∧
      getJulianDayNumber 2000 3 1 = some (n + 1) := by
  let x : CivilDate := ⟨2000, 2, 29, by decide, by decide, by decide, by decide⟩
  obtain ⟨n, -, -, hto, hfrom, hnext⟩ := julian_day_is_gregorian.1 x (by decide) (by decide)
  exact ⟨n, hto, hfrom, hnext⟩

end TinyMuduo

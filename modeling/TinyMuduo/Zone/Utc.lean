import TinyMuduo.Date.Julian
import TinyMuduo.Zone.Model

/-!
# Zone.Utc

`TimeZone::toUtcTime` and `TimeZone::fromUtcTime`: instants as calendar dates and times of day.

The remainder of an instant before 1970 is negative, and is moved into the day before (`splitDay`).
An instant is `InRange` when its day has a positive Julian day number that `Date` can convert.
-/

namespace TinyMuduo

namespace TimeZone

open Signed CivilDate

/-- `struct tm`. -/
structure UtcTm extends Civil where
  tm_wday : Int
  tm_yday : Int
  tm_isdst : Int
  tm_gmtoff : Int
  tm_zone : String
  deriving Repr, DecidableEq

def kSecondsPerDay : Int := 24 * 60 * 60

def kJulianDayOf1970_01_01 : Option Int := getJulianDayNumber 1970 1 1

/-- `static_cast<int>`. -/
def toInt (x : Int) : Int := x.bmod (2 ^ 32)

/-- After `bzero`, with `tm_zone` set. -/
def zeroed : UtcTm :=
  { tm_sec := 0, tm_min := 0, tm_hour := 0, tm_mday := 0, tm_mon := 0, tm_year := 0, tm_wday := 0,
    tm_yday := 0, tm_isdst := 0, tm_gmtoff := 0, tm_zone := "GMT" }

/-- The parameter is `unsigned`. -/
def fillHMS (seconds : Int) (utc : UtcTm) : UtcTm :=
  let seconds := seconds % 2 ^ 32
  let minutes := seconds / 60
  { utc with tm_sec := seconds % 60, tm_min := minutes % 60, tm_hour := minutes / 60 }

/-- The seconds of the day, and the days since 1970. -/
def splitDay (secondsSinceEpoch : Int) : Option (Int × Int) := do
  let seconds ← eval 64 (secondsSinceEpoch % kSecondsPerDay)
  let days ← eval 64 (secondsSinceEpoch / kSecondsPerDay)
  if toInt seconds < 0 then do
    let seconds ← eval 32 (toInt seconds + kSecondsPerDay)
    let days ← eval 32 (toInt days - 1)
    some (seconds, days)
  else
    some (toInt seconds, toInt days)

def toUtcTime (secondsSinceEpoch : Int) (yday : Bool) : Option UtcTm := do
  let (seconds, days) ← splitDay secondsSinceEpoch
  let epoch ← kJulianDayOf1970_01_01
  let date ← (eval 32 (days + epoch)).map Date.mk
  let ymd ← date.yearMonthDay
  let tm_year ← eval 32 (ymd.year - 1900)
  let tm_mon ← eval 32 (ymd.month - 1)
  let tm_wday ← date.weekDay
  let utc := { fillHMS seconds zeroed with
    tm_year := tm_year, tm_mon := tm_mon, tm_mday := ymd.day, tm_wday := tm_wday }
  if yday then do
    let startOfYear ← Date.ofYearMonthDay ymd.year 1 1
    let tm_yday ← eval 32 (date.julianDayNumber - startOfYear.julianDayNumber)
    some { utc with tm_yday := tm_yday }
  else
    some utc

/-- `fromUtcTime(year, month, day, hour, minute, seconds)`. -/
def fromFields (year month day hour minute seconds : Int) : Option Int := do
  let date ← Date.ofYearMonthDay year month day
  let secondsInDay ← eval 32 (hour * 3600 + minute * 60 + seconds)
  let epoch ← kJulianDayOf1970_01_01
  let days ← eval 32 (date.julianDayNumber - epoch)
  eval 64 (days * kSecondsPerDay + secondsInDay)

def fromUtcTime (utc : UtcTm) : Option Int := do
  let year ← eval 32 (utc.tm_year + 1900)
  let month ← eval 32 (utc.tm_mon + 1)
  fromFields year month utc.tm_mday utc.tm_hour utc.tm_min utc.tm_sec

def UtcTm.fields (utc : UtcTm) : List Int :=
  [utc.tm_year, utc.tm_mon, utc.tm_mday, utc.tm_hour, utc.tm_min, utc.tm_sec]

/-- The Julian day number of the day of an instant. -/
def dayOf (t : Int) : Int := t / 86400 + 2440588

structure InRange (t : Int) : Prop where
  pos : 0 < dayOf t
  le : dayOf t ≤ 536838867

/-! ## Splitting an instant -/

theorem kJulianDayOf1970_01_01_eq : kJulianDayOf1970_01_01 = some 2440588 := by decide

theorem toInt_of_fits {x : Int} (h : Fits 32 x) : toInt x = x :=
  Int.bmod_eq_of_le h.1 h.2

/-- An instant before 1970 that is not midnight has a negative remainder. -/
theorem truncated_cases (t : Int) :
    (t.tmod 86400 = t % 86400 ∧ t.tdiv 86400 = t / 86400) ∨
    (t.tmod 86400 = t % 86400 - 86400 ∧ t.tdiv 86400 = t / 86400 + 1) := by
  rw [Int.tmod_eq_emod, Int.tdiv_eq_ediv]
  split
  · exact Or.inl ⟨Int.sub_zero _, Int.add_zero _⟩
  · exact Or.inr ⟨rfl, rfl⟩

theorem splitDay_eq {t : Int} (h : InRange t) : splitDay t = some (t % 86400, t / 86400) := by
  obtain ⟨hpos, hle⟩ := h
  rw [dayOf] at hpos hle
  have hcases := truncated_cases t
  have evalS : eval 64 (t % kSecondsPerDay) = some (t.tmod 86400) := by
    rw [kSecondsPerDay]
    simp (disch := omega) only [Int.reduceMul, intCast_tmod, eval_intCast]
  have evalD : eval 64 (t / kSecondsPerDay) = some (t.tdiv 86400) := by
    rw [kSecondsPerDay]
    simp (disch := omega) only [Int.reduceMul, intCast_tdiv, eval_intCast]
  have hseconds : toInt (t.tmod 86400) = t.tmod 86400 := toInt_of_fits (by omega)
  have hdays : toInt (t.tdiv 86400) = t.tdiv 86400 := toInt_of_fits (by omega)
  simp only [splitDay, evalS, evalD, Option.bind_eq_bind, Option.bind_some, hseconds, hdays]
  rcases hcases with ⟨hmod, hdiv⟩ | ⟨hmod, hdiv⟩
  · rw [if_neg (by omega), hmod, hdiv]
  · rw [if_pos (by omega), hmod, hdiv, kSecondsPerDay]
    simp (disch := omega) only [Int.reduceMul, ofNat_eq, intCast_add, intCast_sub, eval_intCast,
      Option.bind_some, Option.some.injEq, Prod.mk.injEq]
    omega

theorem fillHMS_eq {seconds : Int} (h0 : 0 ≤ seconds) (h : seconds < 86400) (utc : UtcTm) :
    fillHMS seconds utc = { utc with
      tm_sec := seconds % 60, tm_min := seconds / 60 % 60, tm_hour := seconds / 60 / 60 } := by
  rw [fillHMS, Int.emod_eq_of_lt h0 (by omega)]

/-! ## Both directions -/

section
variable {t : Int}

/-- The day of an instant is the date `x`, and `Date` can convert it and the first of its year. -/
structure OnDate (t : Int) (x : CivilDate) : Prop where
  julian : julianDay x = dayOf t
  first : firstDay ≤ x
  last : x ≤ lastDay
  first_newYear : firstDay ≤ newYear x.year

theorem InRange.exists_date (h : InRange t) : ∃ x, OnDate t x := by
  obtain ⟨hpos, hle⟩ := h
  obtain ⟨x, hx, hday⟩ := exists_dayNumber (newYear (-4799)) (n := dayOf t - 1721120) (by
    have : (newYear (-4799)).dayNumber = -1752858 := by decide
    omega)
  have hjulian : julianDay x = dayOf t := by
    rw [julianDay, hday]
    omega
  have hyear : -4799 ≤ x.year := by
    by_contra hlt
    exact not_lt.2 hx (lt_iff.2 (Or.inl (not_le.1 hlt)))
  have hfirst : firstDay < newYear x.year := lt_iff.2 (Or.inl (by
    show -4800 < x.year
    omega))
  refine ⟨x, hjulian, le_trans (by decide) hx, ?_, hfirst.le⟩
  rw [← julianDay_strictMono.le_iff_le, julianDay_lastDay, hjulian]
  exact hle

theorem OnDate.year_bounds {x : CivilDate} (hx : OnDate t x) :
    -4800 ≤ x.year ∧ x.year ≤ 1465102 := by
  refine ⟨?_, year_le_of_le_lastDay hx.last⟩
  by_contra hlt
  exact not_lt.2 hx.first (lt_iff.2 (Or.inl (not_le.1 hlt)))

/-- The first day of 1970 was a Thursday. -/
theorem weekDay_dayOf (h : InRange t) :
    (Date.mk (dayOf t)).weekDay = some ((t / 86400 + 4) % 7) := by
  obtain ⟨hpos, hle⟩ := h
  rw [weekDay_eq hpos (by omega), dayOf]
  congr 1
  omega

/-- The fields of an instant on the date `x`. -/
def broken (t : Int) (x : CivilDate) (yday : Bool) : UtcTm :=
  { tm_sec := t % 86400 % 60, tm_min := t % 86400 / 60 % 60, tm_hour := t % 86400 / 60 / 60,
    tm_mday := x.day, tm_mon := x.month - 1, tm_year := x.year - 1900,
    tm_wday := (t / 86400 + 4) % 7,
    tm_yday := if yday then julianDay x - julianDay (newYear x.year) else 0,
    tm_isdst := 0, tm_gmtoff := 0, tm_zone := "GMT" }

theorem toUtcTime_eq (h : InRange t) {x : CivilDate} (hx : OnDate t x) (yday : Bool) :
    toUtcTime t yday = some (broken t x yday) := by
  obtain ⟨hpos, hle⟩ := h
  have hyear := hx.year_bounds
  have hlow := julianDay_strictMono.monotone hx.first_newYear
  have hhigh := julianDay_strictMono.monotone (newYear_le x)
  have hmonth := x.month_pos
  have hmonth' := x.month_le
  rw [julianDay_firstDay] at hlow
  rw [hx.julian] at hhigh
  have evalDate : (eval 32 ((t / 86400 : Int) + (2440588 : Int))).map Date.mk =
      some ⟨dayOf t⟩ := by
    rw [dayOf] at hpos hle ⊢
    simp (disch := omega) only [intCast_add, eval_intCast, Option.map_some]
  have evalYmd : (Date.mk (dayOf t)).yearMonthDay = some (.ofCivil x) := by
    rw [← hx.julian] at hle ⊢
    exact getYearMonthDay_eq hx.first hle
  have evalYear : eval 32 ((YearMonthDay.ofCivil x).year - 1900) = some (x.year - 1900) := by
    rw [YearMonthDay.ofCivil]
    simp (disch := omega) only [ofNat_eq, intCast_sub, eval_intCast]
  have evalMonth : eval 32 ((YearMonthDay.ofCivil x).month - 1) = some (x.month - 1) := by
    rw [YearMonthDay.ofCivil]
    simp (disch := omega) only [ofNat_eq, intCast_sub, eval_intCast]
  have evalWeek := weekDay_dayOf ⟨hpos, hle⟩
  have evalNew : Date.ofYearMonthDay (YearMonthDay.ofCivil x).year 1 1 =
      some ⟨julianDay (newYear x.year)⟩ := by
    rw [Date.ofYearMonthDay, YearMonthDay.ofCivil]
    exact congrArg _ (getJulianDayNumber_eq hx.first_newYear (show x.year ≤ 2000000 by omega))
  have evalYday : eval 32 ((dayOf t : Int) - (julianDay (newYear x.year) : Int)) =
      some (dayOf t - julianDay (newYear x.year)) := by
    simp (disch := omega) only [intCast_sub, eval_intCast]
  rw [toUtcTime, bind_of_eq_some (splitDay_eq ⟨hpos, hle⟩)]
  dsimp only
  rw [bind_of_eq_some kJulianDayOf1970_01_01_eq, bind_of_eq_some evalDate, bind_of_eq_some evalYmd,
    bind_of_eq_some evalYear, bind_of_eq_some evalMonth, bind_of_eq_some evalWeek,
    bind_of_eq_some evalNew, bind_of_eq_some evalYday,
    fillHMS_eq (Int.emod_nonneg t (by decide)) (Int.emod_lt_of_pos t (by decide)), broken,
    hx.julian]
  cases yday <;> rfl

theorem fromUtcTime_broken (h : InRange t) {x : CivilDate} (hx : OnDate t x) (yday : Bool) :
    fromUtcTime (broken t x yday) = some t := by
  obtain ⟨hpos, hle⟩ := h
  have hyear := hx.year_bounds
  have hmonth := x.month_pos
  have hmonth' := x.month_le
  have evalYear : eval 32 ((x.year - 1900 : Int) + 1900) = some x.year := by
    simp (disch := omega) only [ofNat_eq, intCast_add, eval_intCast, Int.sub_add_cancel]
  have evalMonth : eval 32 ((x.month - 1 : Int) + 1) = some x.month := by
    simp (disch := omega) only [ofNat_eq, intCast_add, eval_intCast, Int.sub_add_cancel]
  have evalDate : Date.ofYearMonthDay x.year x.month x.day = some ⟨dayOf t⟩ := by
    rw [Date.ofYearMonthDay, getJulianDayNumber_eq hx.first (by omega), hx.julian, Option.map_some]
  have evalSeconds : eval 32 ((t % 86400 / 60 / 60 : Int) * 3600 + (t % 86400 / 60 % 60 : Int) * 60
      + (t % 86400 % 60 : Int)) = some (t % 86400) := by
    simp (disch := omega) only [ofNat_eq, intCast_add, intCast_mul, eval_intCast]
    congr 1
    omega
  have evalDays : eval 32 ((dayOf t : Int) - (2440588 : Int)) = some (t / 86400) := by
    rw [dayOf] at hpos hle ⊢
    simp (disch := omega) only [intCast_sub, eval_intCast, Int.add_sub_cancel]
  have evalTime : eval 64 ((t / 86400 : Int) * kSecondsPerDay + (t % 86400 : Int)) = some t := by
    rw [dayOf] at hpos hle
    rw [kSecondsPerDay]
    simp (disch := omega) only [Int.reduceMul, intCast_add, intCast_mul, eval_intCast]
    congr 1
    omega
  simp only [fromUtcTime, broken, fromFields, evalYear, evalMonth, evalDate, evalSeconds, evalDays,
    evalTime, kJulianDayOf1970_01_01_eq, Option.bind_eq_bind, Option.bind_some]

theorem clock_bounds (t : Int) (x : CivilDate) (yday : Bool) :
    0 ≤ (broken t x yday).tm_sec ∧ (broken t x yday).tm_sec < 60 ∧
    0 ≤ (broken t x yday).tm_min ∧ (broken t x yday).tm_min < 60 ∧
    0 ≤ (broken t x yday).tm_hour ∧ (broken t x yday).tm_hour < 24 := by
  dsimp only [broken]
  omega

/-- Every instant after 1970 has a date. -/
theorem exists_date (h : 0 < t) : ∃ x, newYear 1970 ≤ x ∧ julianDay x = dayOf t := by
  obtain ⟨x, hx, hday⟩ := exists_dayNumber (newYear 1970) (n := dayOf t - 1721120) (by
    have : (newYear 1970).dayNumber = 719468 := by decide
    rw [dayOf]
    omega)
  refine ⟨x, hx, ?_⟩
  rw [julianDay, hday]
  omega

/-- A later day has a later date, and a later second of a day is later on the clock. -/
theorem fields_lt {t' : Int} {x x' : CivilDate} {yday yday' : Bool} (hx : julianDay x = dayOf t)
    (hx' : julianDay x' = dayOf t') (hlt : t < t') :
    (broken t x yday).fields < (broken t' x' yday').fields := by
  simp only [UtcTm.fields, broken, List.cons_lt_cons_iff, List.not_lt_nil, and_false, or_false]
  rcases (show t / 86400 < t' / 86400 ∨ t / 86400 = t' / 86400 ∧ t % 86400 < t' % 86400 by omega)
    with hday | ⟨hday, hsec⟩
  · have hdate : x < x' := by
      rw [← julianDay_strictMono.lt_iff_lt, hx, hx', dayOf, dayOf]
      omega
    rw [lt_iff] at hdate
    omega
  · have hdate : x = x' := julianDay_strictMono.injective (by
      rw [hx, hx', dayOf, dayOf, hday])
    subst hdate
    omega

end

/-- **UTC breakdown round-trips.** For every instant in range, before 1970 as well, `toUtcTime`
gives the time of day and the date of its day, the weekday, and if asked for the days since January
1, and `fromUtcTime` converts them back. A later instant has later fields. -/
theorem utc_round_trip {t : Int} (h : InRange t) (yday : Bool) :
    ∃ utc x, toUtcTime t yday = some utc ∧
      0 ≤ utc.tm_sec ∧ utc.tm_sec < 60 ∧ 0 ≤ utc.tm_min ∧ utc.tm_min < 60 ∧
      0 ≤ utc.tm_hour ∧ utc.tm_hour < 24 ∧
      utc.tm_year + 1900 = x.year ∧ utc.tm_mon + 1 = x.month ∧ utc.tm_mday = x.day ∧
      julianDay x = dayOf t ∧ (Date.mk (dayOf t)).weekDay = some utc.tm_wday ∧
      utc.tm_wday = (t / 86400 + 4) % 7 ∧
      utc.tm_yday = (if yday then x.dayNumber - (newYear x.year).dayNumber else 0) ∧
      fromUtcTime utc = some t ∧
      ∀ t' yday', InRange t' → t < t' →
        ∃ utc', toUtcTime t' yday' = some utc' ∧ utc.fields < utc'.fields := by
  obtain ⟨x, hx⟩ := h.exists_date
  obtain ⟨hsec, hsec', hmin, hmin', hhour, hhour'⟩ := clock_bounds t x yday
  refine ⟨broken t x yday, x, toUtcTime_eq h hx yday, hsec, hsec', hmin, hmin', hhour, hhour',
    Int.sub_add_cancel _ _, Int.sub_add_cancel _ _, rfl, hx.julian, weekDay_dayOf h, rfl, ?_,
    fromUtcTime_broken h hx yday, ?_⟩
  · rw [broken, julianDay, julianDay, Int.add_sub_add_right]
  · intro t' yday' h' hlt
    obtain ⟨x', hx'⟩ := h'.exists_date
    exact ⟨_, toUtcTime_eq h' hx' yday', fields_lt hx.julian hx'.julian hlt⟩

/-- The second before 1970. -/
theorem utc_round_trip_before_epoch :
    ∃ utc, toUtcTime (-1) true = some utc ∧ utc.fields = [69, 11, 31, 23, 59, 59] ∧
      utc.tm_wday = 3 ∧ utc.tm_yday = 364 ∧ fromUtcTime utc = some (-1) := by
  obtain ⟨utc, x, hto, -, -, -, -, -, -, -, -, -, -, -, hweek, -, hfrom, -⟩ :=
    utc_round_trip (t := -1) ⟨by decide, by decide⟩ true
  have hval : toUtcTime (-1) true = some ⟨⟨59, 59, 23, 31, 11, 69⟩, 3, 364, 0, 0, "GMT"⟩ := rfl
  cases hval.symm.trans hto
  exact ⟨_, hto, rfl, hweek, rfl, hfrom⟩

end TimeZone
end TinyMuduo

import Mathlib.Order.Defs.Unbundled
import TinyMuduo.Zone.Model

/-!
# Zone.Local

`fromLocalTime` after `toLocalTime`.

The transitions of a table are numbered from 0; `entry k` is in force before transition `k` and
`entry (k + 1)` after it. `setback k` is by how much transition `k` takes the offset back. The local
times of the last `setback k` seconds before the transition come a second time after it, and the
table, searched by local time, gives the second one. `fromLocalTime` then corrects by 3600 seconds
if that makes sense. `fromLocalTime_eq` says what comes out at the end, and `Resolved` when it is
the instant that went in.
-/

namespace TinyMuduo

namespace TimeZone

open LowerBound

namespace ZoneTable

/-- By how much transition `k` takes the offset back. -/
def setback (z : ZoneTable) (k : Nat) : Int :=
  (z.entry k).gmtOffset - (z.entry (k + 1)).gmtOffset

def Increasing (z : ZoneTable) : Prop := z.transitions.Pairwise fun t u => t.gmttime < u.gmttime

/-- Successive transitions are farther apart than the offset changes between them. -/
def Apart (z : ZoneTable) : Prop :=
  ∀ k t u, z.transitions[k]? = some t → z.transitions[k + 1]? = some u →
    -(u.gmttime - t.gmttime) < z.setback (k + 1) ∧ z.setback (k + 1) < u.gmttime - t.gmttime

/-- The type in force at `t`. -/
def inForce (z : ZoneTable) (t : Int) : Localtime :=
  z.entry (z.transitions.countP (·.gmttime ≤ t))

/-- The type after the transitions whose local time is not after `s`. -/
def foundLocally (z : ZoneTable) (s : Int) : Localtime :=
  z.entry (z.transitions.countP (·.localtime ≤ s))

/-- The local time of `t` leads back to the offset in force at `t`; or to one that is 3600 seconds
less, `t` is in daylight saving time and one hour later is not, and the clock then shows the hour
and the minute that it shows at `t`. -/
def Resolved (cal : Calendar) (z : ZoneTable) (t : Int) : Prop :=
  let i := z.inForce t
  let j := z.foundLocally (t + i.gmtOffset)
  let k := z.inForce (t + 3600)
  i.gmtOffset = j.gmtOffset ∨
    i.gmtOffset - j.gmtOffset = 3600 ∧ i.isDst = true ∧ k.isDst = false ∧
      (cal.gmtime_r (t + 3600 + k.gmtOffset)).tm_hour =
        (cal.gmtime_r (t + i.gmtOffset)).tm_hour ∧
      (cal.gmtime_r (t + 3600 + k.gmtOffset)).tm_min = (cal.gmtime_r (t + i.gmtOffset)).tm_min

instance (cal : Calendar) (z : ZoneTable) (t : Int) : Decidable (z.Resolved cal t) :=
  inferInstanceAs (Decidable (_ ∨ _))

/-- The local times of the transitions are in order too. -/
theorem Apart.localtime_lt {z : ZoneTable} (h : z.Apart) :
    z.transitions.Pairwise fun t u => t.localtime < u.localtime := by
  have htrans : IsTrans Transition fun t u => t.localtime < u.localtime :=
    ⟨fun _ _ _ => Int.lt_trans⟩
  rw [← List.isChain_iff_pairwise, List.isChain_iff_getElem]
  intro k hk
  have ht := List.getElem?_eq_getElem (l := z.transitions) (i := k) (by omega)
  have hu := List.getElem?_eq_getElem hk
  have hapart := (h k _ _ ht hu).2
  rw [Tables.localtime_eq ht, Tables.localtime_eq hu]
  rw [setback] at hapart
  omega

end ZoneTable

/-- Ordered strictly by what `comp` compares, the search counts the transitions that are not after
the sentry. -/
theorem findLocaltime_countP (z : Tables) (comp : Comp) (sentry : Transition)
    (hlt : z.transitions.Pairwise fun t u => comp.key t < comp.key u) :
    findLocaltime z.toData sentry comp =
      .ok (z.entry (z.transitions.countP (comp.key · ≤ comp.key sentry))) := by
  have hmono : z.transitions.Pairwise
      fun a b => comp.key b ≤ comp.key sentry → comp.key a ≤ comp.key sentry :=
    hlt.imp fun hab hb => by omega
  obtain ⟨n, hn⟩ := exists_splits _ hmono
  rw [hn.countP_eq]
  exact findLocaltime_entry z comp hlt hn

/-- The `struct tm` of `t` under the type `l`. -/
def Localtime.tm (cal : Calendar) (l : Localtime) (t : Int) : Tm where
  civil := cal.gmtime_r (t + l.gmtOffset)
  tm_isdst := if l.isDst then 1 else 0
  tm_gmtoff := l.gmtOffset
  tm_zone := l.arrbIdx

section

variable {z : ZoneTable} (hinc : z.Increasing) (hapart : z.Apart)

include hinc in
/-- `toLocalTime` takes the type that is in force. -/
theorem toLocalTime_eq (cal : Calendar) (t : Int) :
    toLocalTime cal ⟨some z.toData⟩ t = .ok ((z.inForce t).tm cal t) := by
  have hfind : findLocaltime z.toData ⟨t, 0, 0⟩ ⟨true⟩ = .ok (z.inForce t) :=
    findLocaltime_countP z.toTables ⟨true⟩ ⟨t, 0, 0⟩ hinc
  exact toLocalTime_ok cal hfind (z.abbreviated _ (LookedUp.mem ⟨t, hfind⟩))

include hinc hapart in
/-- What `fromLocalTime` makes of the local time of `t` under the type `i`. -/
theorem fromLocalTime_eq (cal : Calendar) (t : Int) {i j : Localtime} {again : Int}
    (hj : z.foundLocally (t + i.gmtOffset) = j)
    (hagain : again = t + i.gmtOffset - j.gmtOffset) :
    fromLocalTime cal ⟨some z.toData⟩ (i.tm cal t) = .ok
      (again -
        if i.isDst && isTry (i.tm cal t) ((z.inForce again).tm cal again) then 3600 else 0) := by
  have hseconds : cal.timegm (i.tm cal t).civil = t + i.gmtOffset := cal.timegm_gmtime_r _
  have hfind : findLocaltime z.toData ⟨0, t + i.gmtOffset, 0⟩ ⟨false⟩ = .ok j := by
    rw [← hj]
    exact findLocaltime_countP z.toTables ⟨false⟩ ⟨0, t + i.gmtOffset, 0⟩ hapart.localtime_lt
  simp only [fromLocalTime, deref, Result.ok_bind, hseconds, hfind, ← hagain,
    toLocalTime_eq hinc cal again]
  cases hd : i.isDst with
  | false => simp [Localtime.tm, hd]
  | true =>
    cases htry : isTry (i.tm cal t) ((z.inForce again).tm cal again) with
    | false => simp [Localtime.tm, hd]
    | true =>
      have hback : t + i.gmtOffset - 3600 - j.gmtOffset = again - 3600 := by omega
      simp [Localtime.tm, hd, hback]

/-- No correction at the same instant: it is in daylight saving time or not. -/
theorem isTry_self (cal : Calendar) (l : Localtime) (t : Int) :
    (l.isDst && isTry (l.tm cal t) (l.tm cal t)) = false := by
  cases hd : l.isDst <;> simp [isTry, Localtime.tm, hd]

theorem isTry_iff (cal : Calendar) (i k : Localtime) (t u : Int) :
    isTry (i.tm cal t) (k.tm cal u) = true ↔ k.isDst = false ∧
      (cal.gmtime_r (u + k.gmtOffset)).tm_hour = (cal.gmtime_r (t + i.gmtOffset)).tm_hour ∧
      (cal.gmtime_r (u + k.gmtOffset)).tm_min = (cal.gmtime_r (t + i.gmtOffset)).tm_min := by
  cases hd : k.isDst <;> simp [isTry, Localtime.tm, hd]

include hinc hapart in
/-- `fromLocalTime` inverts `toLocalTime` at `t` if and only if the local time of `t` is resolved:
it does not come again under another offset, or it comes again one hour later, after the end of
daylight saving time. -/
theorem fromLocalTime_toLocalTime (cal : Calendar) (t : Int) :
    (∃ tm, toLocalTime cal ⟨some z.toData⟩ t = .ok tm ∧
      fromLocalTime cal ⟨some z.toData⟩ tm = .ok t) ↔ z.Resolved cal t := by
  obtain ⟨i, hi⟩ : ∃ i, z.inForce t = i := ⟨_, rfl⟩
  obtain ⟨j, hj⟩ : ∃ j, z.foundLocally (t + i.gmtOffset) = j := ⟨_, rfl⟩
  obtain ⟨again, hagain⟩ : ∃ again, again = t + i.gmtOffset - j.gmtOffset := ⟨_, rfl⟩
  have hto := toLocalTime_eq hinc cal t
  have hfrom := fromLocalTime_eq hinc hapart cal t hj hagain
  rw [hi] at hto
  have hinverts : (∃ tm, toLocalTime cal ⟨some z.toData⟩ t = .ok tm ∧
      fromLocalTime cal ⟨some z.toData⟩ tm = .ok t) ↔
      again - (if i.isDst && isTry (i.tm cal t) ((z.inForce again).tm cal again) then 3600
        else 0) = t := by
    simp [hto, hfrom]
  simp only [hinverts, ZoneTable.Resolved, hi, hj]
  by_cases hsame : i.gmtOffset = j.gmtOffset
  · obtain rfl : again = t := by omega
    simp [hi, isTry_self, hsame]
  · -- under another offset only a correction of just that much leads back to `t`
    have hback : i.gmtOffset - j.gmtOffset = 3600 ↔ again = t + 3600 := by omega
    constructor
    · intro h
      split at h
      next hcorrected =>
        obtain rfl : again = t + 3600 := by omega
        rw [Bool.and_eq_true, isTry_iff] at hcorrected
        exact .inr ⟨hback.2 rfl, hcorrected⟩
      next => omega
    · rintro (h | ⟨h, hcorrected⟩)
      · exact absurd h hsame
      · obtain rfl : again = t + 3600 := hback.1 h
        rw [← isTry_iff, ← Bool.and_eq_true] at hcorrected
        rw [if_pos hcorrected]
        omega

end

/-- A zone with one transition. -/
def oneTransition (gmttime : Int) (before after : Int × Bool) : ZoneTable where
  transitions := [⟨gmttime, gmttime + after.1, 1⟩]
  localtimes := [⟨before.1, before.2, 0⟩, ⟨after.1, after.2, 0⟩]
  abbreviation := []
  localtimes_ne := nofun
  entered := by simp
  abbreviated := by simp

theorem oneTransition_increasing (gmttime : Int) (before after : Int × Bool) :
    (oneTransition gmttime before after).Increasing := List.pairwise_singleton _ _

theorem oneTransition_apart (gmttime : Int) (before after : Int × Bool) :
    (oneTransition gmttime before after).Apart := by
  intro k t u _ hu
  simp [oneTransition] at hu

/-- The end of daylight saving time in New York. -/
def newYork : ZoneTable := oneTransition 100000 (-14400, true) (-18000, false)

/-- The repeated hour, the first time and the second. -/
theorem fromLocalTime_toLocalTime_new_york :
    (∃ tm, toLocalTime januaryCalendar ⟨some newYork.toData⟩ 99999 = .ok tm ∧
      fromLocalTime januaryCalendar ⟨some newYork.toData⟩ tm = .ok 99999) ∧
    ∃ tm, toLocalTime januaryCalendar ⟨some newYork.toData⟩ 103599 = .ok tm ∧
      fromLocalTime januaryCalendar ⟨some newYork.toData⟩ tm = .ok 103599 := by
  have hinc : newYork.Increasing := oneTransition_increasing _ _ _
  have hapart : newYork.Apart := oneTransition_apart _ _ _
  exact ⟨(fromLocalTime_toLocalTime hinc hapart januaryCalendar 99999).2 (by decide),
    (fromLocalTime_toLocalTime hinc hapart januaryCalendar 103599).2 (by decide)⟩

/-- One hour back, without daylight saving time before or after. -/
def zoneChange : ZoneTable := oneTransition 100000 (3600, false) (0, false)

/-- The end of daylight saving time on Lord Howe Island: half an hour back. -/
def lordHowe : ZoneTable := oneTransition 100000 (39600, true) (37800, false)

/-- The second before such a transition comes back as another instant. -/
theorem fromLocalTime_misses_first_pass :
    (zoneChange.Increasing ∧ zoneChange.Apart ∧
      ∃ tm, toLocalTime januaryCalendar ⟨some zoneChange.toData⟩ 99999 = .ok tm ∧
        fromLocalTime januaryCalendar ⟨some zoneChange.toData⟩ tm = .ok 103599) ∧
    lordHowe.Increasing ∧ lordHowe.Apart ∧
      ∃ tm, toLocalTime januaryCalendar ⟨some lordHowe.toData⟩ 99999 = .ok tm ∧
        fromLocalTime januaryCalendar ⟨some lordHowe.toData⟩ tm = .ok 98199 :=
  ⟨⟨oneTransition_increasing _ _ _, oneTransition_apart _ _ _, _, rfl, rfl⟩,
    oneTransition_increasing _ _ _, oneTransition_apart _ _ _, _, rfl, rfl⟩

end TimeZone

end TinyMuduo

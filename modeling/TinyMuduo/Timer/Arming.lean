import Mathlib.Order.MinMax
import TinyMuduo.Timer.Ownership

/-!
# Timer.Arming

The timerfd against `timers_`. `addTimerInLoop` sets it when the new entry is the first one, and
`reset` at the end of `handleRead` when the first entry is `valid()`. Between `Timestamp::now()` in
`howMuchTimeFromNow` and `timerfd_settime` the clock can advance, and the deadline moves with it.

`Covers` is the invariant. Inside `handleRead` it only speaks of entries that are not `valid()`:
such an entry was added by a callback of this `handleRead`, after the timerfd was read.
-/

namespace TinyMuduo

open TimerQueue

/-- `x` is an `int64_t`. -/
def InRange (x : Int) : Prop := -2 ^ 63 ≤ x ∧ x < 2 ^ 63

instance (x : Int) : Decidable (InRange x) := inferInstanceAs (Decidable (_ ∧ _))

theorem wrap64_eq {x : Int} (h : InRange x) : wrap64 x = x := by
  obtain ⟨hl, hu⟩ := h
  refine Int.bmod_eq_of_le ?_ ?_
  · omega
  · omega

theorem microseconds_howMuchTimeFromNow (when_ now : Timestamp) :
    (howMuchTimeFromNow when_ now).microseconds = max (wrap64 (when_ - now)) 100 := by
  unfold howMuchTimeFromNow Timespec.microseconds kMicroSecondsPerSecond
  simp only
  omega

theorem add_wait_eq (t now settime : Int) :
    settime + max (t - now) 100 = max (t + (settime - now)) (settime + 100) := by
  omega

/-- The deadline for a timer at `t`: its expiration, later by what the clock advanced while the
timerfd was set, but at least 100 microseconds away. -/
def Armed.bound (a : Armed) (t : Timestamp) : Timestamp :=
  max (t + (a.clock.settime - a.clock.now)) (a.clock.settime + 100)

theorem Armed.bound_mono (a : Armed) {t t' : Timestamp} (h : t ≤ t') : a.bound t ≤ a.bound t' :=
  max_le_max (Int.add_le_add_right h _) le_rfl

namespace TimerQueue

/-- The timerfd will expire in time for a timer at `t`. -/
def Wakes (q : TimerQueue) (t : Timestamp) : Prop :=
  ∃ a, q.timerfd = some a ∧ a.deadline ≤ a.bound t

variable {q : TimerQueue} {p : Addr} {timer : Timer} {t t' : Timestamp}

theorem Wakes.mono (h : q.Wakes t) (ht : t ≤ t') : q.Wakes t' := by
  obtain ⟨a, ha, hd⟩ := h
  exact ⟨a, ha, hd.trans (a.bound_mono ht)⟩

theorem resetTimerfd_wakes {clock : Clock} (h : InRange (t - clock.now)) :
    (q.resetTimerfd t clock).Wakes t := by
  refine ⟨_, rfl, le_of_eq ?_⟩
  simp only [Armed.bound, microseconds_howMuchTimeFromNow, wrap64_eq h]
  exact add_wait_eq t clock.now clock.settime

theorem begin?_fst_le {e : Entry} (hb : q.timers.begin? = some e) (hm : toLex (t, p) ∈ q.timers) :
    (ofLex e).1 ≤ t := by
  rcases Prod.Lex.le_iff.1 (OrdSet.begin?_le hb hm) with h | ⟨h, -⟩
  · exact h.le
  · exact h.le

theorem lt_of_isEarliest (h : q.isEarliest t' = true) (hm : toLex (t, p) ∈ q.timers) : t' < t := by
  unfold isEarliest at h
  cases hb : q.timers.begin? with
  | none =>
    rw [OrdSet.mem_def, OrdSet.begin?_eq_none.1 hb] at hm
    cases hm
  | some e =>
    rw [hb] at h
    exact lt_of_lt_of_le (of_decide_eq_true h) (begin?_fst_le hb hm)

theorem exists_le_of_not_isEarliest (h : q.isEarliest t' = false) :
    ∃ e, e ∈ q.timers ∧ (ofLex e).1 ≤ t' := by
  unfold isEarliest at h
  cases hb : q.timers.begin? with
  | none =>
    rw [hb] at h
    cases h
  | some e =>
    rw [hb] at h
    exact ⟨e, OrdSet.begin?_mem hb, not_lt.1 (of_decide_eq_false h)⟩

/-- `addTimerInLoop` keeps any lower part of `timers_` covered. -/
theorem added_wakes {P : Timestamp → Prop} (hP : ∀ t t', t ≤ t' → P t' → P t)
    (h : ∀ t p, toLex (t, p) ∈ q.timers → P t → q.Wakes t) {clock : Clock}
    (hr : InRange (timer.expiration - clock.now)) :
    ∀ t x, toLex (t, x) ∈ (q.added p timer clock).timers → P t →
      (q.added p timer clock).Wakes t := by
  intro t x hm ht
  have hmem : toLex (t, x) = toLex (timer.expiration, p) ∨ toLex (t, x) ∈ q.timers := by
    obtain ⟨fd, hfd⟩ := added_eq q p timer clock
    rw [hfd] at hm
    exact OrdSet.mem_insert.1 hm
  cases he : q.isEarliest timer.expiration with
  | true =>
    have hw : (q.added p timer clock).Wakes timer.expiration := by
      rw [added, if_pos he]
      exact resetTimerfd_wakes hr
    rcases hmem with heq | hm
    · obtain ⟨rfl, -⟩ := Prod.mk.inj (toLex.injective heq)
      exact hw
    · exact hw.mono (lt_of_isEarliest he hm).le
  | false =>
    have hfd : ∀ t, q.Wakes t → (q.added p timer clock).Wakes t := by
      intro t hw
      rw [added, he]
      exact hw
    rcases hmem with heq | hm
    · obtain ⟨rfl, -⟩ := Prod.mk.inj (toLex.injective heq)
      obtain ⟨e, hm, hle⟩ := exists_le_of_not_isEarliest he
      exact hfd _ ((h (ofLex e).1 (ofLex e).2 hm (hP _ _ hle ht)).mono hle)
    · exact hfd t (h t x hm ht)

/-- At the end of `reset` every entry is covered, if the ones that are not valid were before. -/
theorem rearmed_wakes (h : ∀ t p, toLex (t, p) ∈ q.timers → t ≤ 0 → q.Wakes t) {clock : Clock}
    (hr : ∀ e ∈ q.timers.begin?, InRange ((ofLex e).1 - clock.now)) :
    ∀ t p, toLex (t, p) ∈ (q.rearmed clock).timers → (q.rearmed clock).Wakes t := by
  intro t p hm
  replace hm : toLex (t, p) ∈ q.timers := by
    obtain ⟨fd, hfd⟩ := q.rearmed_eq clock
    rwa [hfd] at hm
  unfold rearmed
  cases hb : q.timers.begin? with
  | none =>
    rw [OrdSet.mem_def, OrdSet.begin?_eq_none.1 hb] at hm
    cases hm
  | some e =>
    have hle := begin?_fst_le hb hm
    by_cases hv : (ofLex e).1.valid
    · simp only [if_pos hv]
      exact (resetTimerfd_wakes (hr e hb)).mono hle
    · simp only [if_neg hv]
      refine (h (ofLex e).1 (ofLex e).2 (OrdSet.begin?_mem hb) ?_).mono hle
      simpa [Timestamp.valid] using hv

/-- What `getExpired` leaves is later than `now`. -/
theorem lt_of_mem_above (ha : ∀ p ∈ q.addrs, p < maxAddr) {now : Timestamp}
    (hm : toLex (t, p) ∈ q.timers.above (sentry now)) : now < t := by
  have hp : p < maxAddr :=
    ha p (Indexed.mem_addr ((List.dropWhile_sublist _).subset hm))
  rcases Prod.Lex.le_iff.1 (OrdSet.le_of_mem_above hm) with h | ⟨-, h⟩
  · exact h
  · exact absurd hp (not_lt.2 h)

end TimerQueue

/-- The entry that `reset` comes to next, and the time it restarts it from. -/
def TimerPhase.next? : TimerPhase → Option (Timestamp × Entry)
  | .resetting now (e :: _) => some (now, e)
  | .resetting _ [] | .idle | .calling _ _ _ => none

/-- The time of the `handleRead` that is running. -/
def TimerPhase.now? : TimerPhase → Option Timestamp
  | .calling now _ _ | .resetting now _ => some now
  | .idle => none

namespace TimerLoop

/-- The clock is after the epoch, and no `int64_t` overflows in `howMuchTimeFromNow` and
`restart`. -/
def Fits (s : TimerLoop) : TimerOp → Prop
  | .runFunctor clock => ∀ p ∈ s.pending.head?, ∀ timer ∈ s.queue.heap p,
      InRange (timer.expiration - clock.now)
  | .addTimer _ when_ _ _ clock => InRange (when_ - clock.now)
  | .handleRead now _ => 0 < now
  | .resetEntry => ∀ r ∈ s.phase.next?, ∀ timer ∈ s.queue.heap r.2.addr,
      timer.repeat_ = true → InRange (r.1 + timer.delta)
  | .endReset clock => ∀ e ∈ s.queue.timers.begin?, InRange ((ofLex e).1 - clock.now)
  | _ => True

instance (s : TimerLoop) : (op : TimerOp) → Decidable (s.Fits op)
  | .runFunctor clock => inferInstanceAs (Decidable (∀ p ∈ s.pending.head?,
      ∀ timer ∈ s.queue.heap p, InRange (timer.expiration - clock.now)))
  | .addTimer _ _ _ _ _ => inferInstanceAs (Decidable (InRange _))
  | .handleRead now _ => inferInstanceAs (Decidable (0 < now))
  | .resetEntry => inferInstanceAs (Decidable (∀ r ∈ s.phase.next?,
      ∀ timer ∈ s.queue.heap r.2.addr, timer.repeat_ = true → InRange (r.1 + timer.delta)))
  | .endReset clock => inferInstanceAs (Decidable (∀ e ∈ s.queue.timers.begin?,
      InRange ((ofLex e).1 - clock.now)))
  | .otherQueue | .create _ _ _ _ | .cancel _ | .startCallback | .endCallbacks => isTrue trivial

structure Covers (s : TimerLoop) : Prop where
  wakes : ∀ t p, toLex (t, p) ∈ s.queue.timers → s.phase = .idle ∨ t ≤ 0 → s.queue.Wakes t
  now : ∀ now ∈ s.phase.now?, 0 < now
  deltas : ∀ p timer, s.queue.heap p = some timer → timer.repeat_ = true → 0 ≤ timer.delta

variable {s s' : TimerLoop} {op : TimerOp}

/-- The entries that are covered come first. -/
theorem covered_lower {t t' : Timestamp} (hle : t ≤ t') (h : s.phase = .idle ∨ t' ≤ 0) :
    s.phase = .idle ∨ t ≤ 0 :=
  h.imp_right hle.trans

theorem Covers.inside (h : s.Covers) (t : Timestamp) (p : Addr)
    (hm : toLex (t, p) ∈ s.queue.timers) (ht : t ≤ 0) : s.queue.Wakes t :=
  h.wakes t p hm (Or.inr ht)

theorem Covers.alloc (h : s.Covers) {p : Addr} {when_ : Timestamp} {repeat_ : Bool} {delta : Int}
    (ha : s.Allocates p repeat_ delta) : ∀ x timer,
    (s.newTimer p when_ repeat_ delta).queue.heap x = some timer → timer.repeat_ = true →
      0 ≤ timer.delta := by
  intro x timer hx hr
  rcases Heap.update_eq_some.1 hx with ⟨-, heq⟩ | ⟨-, hx⟩
  · cases heq
    exact ha.2.2 hr
  · exact h.deltas x timer hx hr

theorem Covers.freed (h : s.Covers) (p : Addr) (timer : Timer) : ∀ x t,
    (s.queue.freed p timer).heap x = some t → t.repeat_ = true → 0 ≤ t.delta := by
  intro x t hx hr
  exact h.deltas x t (Heap.free_eq_some.1 hx).2 hr

theorem step_covers (hi : s.Inv) (h : s.Covers) (hf : s.Fits op) (hs : s.Step op s') :
    s'.Covers := by
  cases hs with
  | otherQueue => exact ⟨h.wakes, h.now, h.deltas⟩
  | create ha => exact ⟨h.wakes, h.now, h.alloc ha⟩
  | @runFunctor p pending timer clock hidle hp ht =>
    have hr : InRange (timer.expiration - clock.now) := hf p (by rw [hp]; rfl) timer ht
    refine ⟨added_wakes (fun _ _ => covered_lower) h.wakes hr, h.now, ?_⟩
    obtain ⟨fd, hfd⟩ := added_eq s.queue p timer clock
    rw [hfd]
    exact h.deltas
  | @addTimer p when_ repeat_ delta clock hu ha =>
    refine ⟨added_wakes (q := (s.newTimer p when_ repeat_ delta).queue)
      (fun _ _ => covered_lower) h.wakes hf, h.now, ?_⟩
    obtain ⟨fd, hfd⟩ :=
      added_eq (s.newTimer p when_ repeat_ delta).queue p (s.fresh when_ repeat_ delta) clock
    rw [hfd]
    exact h.alloc ha
  | cancel hu hc =>
    cases hc with
    | @erased timer =>
      refine ⟨fun t p hm ht => ?_, h.now, h.freed _ timer⟩
      exact h.wakes t p (OrdSet.mem_erase.1 hm).2 ht
    | marked => exact ⟨h.wakes, h.now, h.deltas⟩
    | ignored => exact ⟨h.wakes, h.now, h.deltas⟩
  | @handleRead now readAt active fd hidle hown =>
    replace hf : 0 < now := hf
    refine ⟨fun t p hm ht => ?_, fun n hn => ?_, h.deltas⟩
    · have hlt := lt_of_mem_above hi.addrs_lt hm
      rcases ht with ht | ht
      · cases ht
      · exact absurd (lt_trans hf hlt) (not_lt.2 ht)
    · cases hn
      exact hf
  | startCallback hp =>
    refine ⟨fun t p hm ht => ?_, fun n hn => h.now n (by rw [hp]; exact hn), h.deltas⟩
    exact h.inside t p hm (ht.resolve_left nofun)
  | endCallbacks hp =>
    refine ⟨fun t p hm ht => ?_, fun n hn => h.now n (by rw [hp]; exact hn), h.deltas⟩
    exact h.inside t p hm (ht.resolve_left nofun)
  | @restart now e todo timer hp htimer hr =>
    have hnow : 0 < now := h.now now (by rw [hp]; rfl)
    have hdelta := h.deltas e.addr timer htimer hr.1
    have hrange : InRange (now + timer.delta) :=
      hf (now, e) (by rw [hp]; rfl) timer htimer hr.1
    have hpos : 0 < (timer.restart now).expiration := by
      rw [Timer.restart, if_pos hr.1, addTime, wrap64_eq hrange]
      exact Int.add_pos_of_pos_of_nonneg hnow hdelta
    refine ⟨fun t p hm ht => ?_, fun n hn => h.now n (by rw [hp]; exact hn), ?_⟩
    · replace ht : t ≤ 0 := ht.resolve_left nofun
      rcases OrdSet.mem_insert.1 hm with heq | hm
      · obtain ⟨rfl, -⟩ := Prod.mk.inj (toLex.injective heq)
        exact absurd hpos (not_lt.2 ht)
      · exact h.inside t p hm ht
    · intro x t hx hrep
      rcases Heap.update_eq_some.1 hx with ⟨-, heq⟩ | ⟨-, hx⟩
      · cases heq
        exact hdelta
      · exact h.deltas x t hx hrep
  | delete hp =>
    refine ⟨fun t p hm ht => ?_, fun n hn => h.now n (by rw [hp]; exact hn), h.freed _ _⟩
    exact h.inside t p hm (ht.resolve_left nofun)
  | @endReset now clock hp =>
    have hw := rearmed_wakes h.inside hf
    refine ⟨fun t p hm _ => hw t p hm, nofun, ?_⟩
    obtain ⟨fd, hfd⟩ := s.queue.rearmed_eq clock
    rw [hfd]
    exact h.deltas

/-- **No timer is forgotten.** Outside of `handleRead`, while `timers_` is not empty, the timerfd
is set, and expires no later than the first timer, plus what the clock advanced while the timerfd
was set, or 100 microseconds after it was set. -/
theorem timerfd_wakes_for_first {ops : List TimerOp} {s : TimerLoop}
    (h : (timerLoop.under Fits).Run .init ops s) (hidle : s.phase = .idle) {e : Entry}
    (he : s.queue.timers.begin? = some e) :
    ∃ a, s.queue.timerfd = some a ∧
      a.deadline ≤ max ((ofLex e).1 + (a.clock.settime - a.clock.now)) (a.clock.settime + 100) := by
  have hinit : TimerLoop.init.Inv ∧ TimerLoop.init.Covers := ⟨Inv.init, nofun, nofun, nofun⟩
  have hc : s.Covers := by
    refine (h.keeps (I := fun s : TimerLoop => s.Inv ∧ s.Covers) ?_ hinit).2
    rintro s op s' ⟨hi, hs⟩ ⟨he, hf⟩ hx
    obtain ⟨s₁, hx₁, hstep⟩ := exec_step hi he
    obtain rfl : s₁ = s' := Except.ok.inj (hx₁.symm.trans hx)
    exact ⟨step_inv hi hstep, step_covers hi hs hf hstep⟩
  exact hc.wakes (ofLex e).1 (ofLex e).2 (OrdSet.begin?_mem he) (Or.inl hidle)

/-- A callback adds a timer that is not `valid()`: the end of `handleRead` leaves the timerfd as
`addTimerInLoop` has set it, 100 microseconds ahead. -/
theorem timerfd_wakes_for_first_sample :
    ∃ s e a, (timerLoop.under Fits).Run .init
      [.addTimer 16 500 true 1000 ⟨100, 101⟩, .handleRead 502 503, .startCallback,
        .addTimer 32 0 false 0 ⟨510, 511⟩, .endCallbacks, .resetEntry, .endReset ⟨520, 521⟩] s ∧
      s.queue.timers.begin? = some e ∧ (ofLex e).1 = 0 ∧ s.queue.timerfd = some a ∧
      a.deadline ≤ max ((ofLex e).1 + (a.clock.settime - a.clock.now)) (a.clock.settime + 100) := by
  obtain ⟨s, hrun, hs⟩ := Machine.Run.of_replay (timerLoop.under Fits) .init
    [.addTimer 16 500 true 1000 ⟨100, 101⟩, .handleRead 502 503, .startCallback,
      .addTimer 32 0 false 0 ⟨510, 511⟩, .endCallbacks, .resetEntry, .endReset ⟨520, 521⟩]
    (fun s => (s.phase, s.queue.timers.begin?)) (.idle, some (toLex (0, 32))) (by decide +kernel)
  obtain ⟨hidle, he⟩ := Prod.mk.inj hs
  obtain ⟨a, ha, hd⟩ := timerfd_wakes_for_first hrun hidle he
  exact ⟨s, _, a, hrun, he, rfl, ha, hd⟩

/-- When the clock advances between `Timestamp::now()` and `timerfd_settime`, the deadline is past
both the first expiration and the 100 microseconds; and before the epoch, where no expiration is
`valid()`, `handleRead` leaves a timer behind with the timerfd disarmed. -/
theorem timerfd_late :
    (∃ s e a, timerLoop.Run .init [.addTimer 16 1000 false 0 ⟨1, 6⟩] s ∧ s.phase = .idle ∧
      s.queue.timers.begin? = some e ∧ s.queue.timerfd = some a ∧
      ¬ a.deadline ≤ max (ofLex e).1 (a.clock.settime + 100)) ∧
    ∃ s, timerLoop.Run .init
      [.addTimer 16 (-500) false 0 ⟨-1000, -1000⟩, .addTimer 32 (-300) false 0 ⟨-1000, -1000⟩,
        .handleRead (-400) (-400), .startCallback, .endCallbacks, .resetEntry,
        .endReset ⟨-390, -390⟩] s ∧ s.phase = .idle ∧
      s.queue.timers.begin? = some (toLex (-300, 32)) ∧ s.queue.timerfd = none := by
  constructor
  · obtain ⟨s, hrun, hs⟩ := Machine.Run.of_replay timerLoop .init
      [.addTimer 16 1000 false 0 ⟨1, 6⟩]
      (fun s => (s.phase, s.queue.timers.begin?, s.queue.timerfd))
      (.idle, some (toLex (1000, 16)), some ⟨⟨1, 6⟩, 1005⟩) (by decide +kernel)
    simp only [Prod.mk.injEq] at hs
    exact ⟨s, _, _, hrun, hs.1, hs.2.1, hs.2.2, by decide⟩
  · refine (Machine.Run.of_replay timerLoop .init _
      (fun s => (s.phase, s.queue.timers.begin?, s.queue.timerfd))
      (.idle, some (toLex (-300, 32)), none) (by decide +kernel)).imp
      fun s ⟨hrun, hs⟩ => ⟨hrun, ?_⟩
    simpa only [Prod.mk.injEq] using hs

end TimerLoop
end TinyMuduo

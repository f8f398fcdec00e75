import TinyMuduo.Timer.Arming
import TinyMuduo.Timer.Cancel

/-!
# Timer.Due

When callbacks are started.

`getExpired` splits `timers_` at `now`: the sentry comes after every entry of that time, because no
timer is at `UINTPTR_MAX`. A `TimerHistory` keeps a record of each start, with the timer as it was
then and the time of its batch; `Fired` is what these records satisfy, and `Follows` what they say
about a timer that is still live. How far apart the starts of a repeating timer are depends on
`now + interval_` being an `int64_t` (`Spaced`).
-/

namespace TinyMuduo
namespace TimerQueue

variable {q : TimerQueue} {now : Timestamp} {e : Entry}

theorem fst_le_of_mem_below (h : e ∈ q.timers.below (sentry now)) : (ofLex e).1 ≤ now := by
  rcases Prod.Lex.lt_iff.1 (OrdSet.lt_of_mem_below h) with h | ⟨h, -⟩
  · exact le_of_lt h
  · exact le_of_eq h

/-- The batch of `getExpired`. -/
theorem mem_below_iff (ha : ∀ p ∈ q.addrs, p < maxAddr) :
    e ∈ q.timers.below (sentry now) ↔ e ∈ q.timers ∧ (ofLex e).1 ≤ now := by
  have happ := q.timers.below_append_above (sentry now)
  constructor
  · intro h
    exact ⟨by rw [OrdSet.mem_def, ← happ]; exact List.mem_append_left _ h, fst_le_of_mem_below h⟩
  · rintro ⟨hm, hle⟩
    rw [OrdSet.mem_def, ← happ] at hm
    refine (List.mem_append.1 hm).resolve_right fun hab => ?_
    exact absurd (lt_of_mem_above ha hab) (not_lt.2 hle)

/-- What `getExpired` leaves. -/
theorem mem_above_iff (ha : ∀ p ∈ q.addrs, p < maxAddr) :
    e ∈ q.timers.above (sentry now) ↔ e ∈ q.timers ∧ now < (ofLex e).1 := by
  have happ := q.timers.below_append_above (sentry now)
  constructor
  · intro h
    exact ⟨by rw [OrdSet.mem_def, ← happ]; exact List.mem_append_right _ h, lt_of_mem_above ha h⟩
  · rintro ⟨hm, hlt⟩
    rw [OrdSet.mem_def, ← happ] at hm
    refine (List.mem_append.1 hm).resolve_left fun hb => ?_
    exact absurd (fst_le_of_mem_below hb) (not_le.2 hlt)

theorem below_ordered (q : TimerQueue) (now : Timestamp) :
    (q.timers.below (sentry now)).Pairwise fun e e' => (ofLex e).1 ≤ (ofLex e').1 := by
  refine (q.timers.sorted.sublist (List.takeWhile_sublist _)).imp fun {e e'} h => ?_
  rcases Prod.Lex.lt_iff.1 h with h | ⟨h, -⟩
  · exact le_of_lt h
  · exact le_of_eq h

end TimerQueue

/-- The operations that are not a part of `handleRead`. -/
def TimerOp.aside : TimerOp → Bool
  | .otherQueue | .create _ _ _ _ | .runFunctor _ | .addTimer _ _ _ _ _ | .cancel _ => true
  | .handleRead _ _ | .startCallback | .endCallbacks | .resetEntry | .endReset _ => false

namespace TimerLoop

open TimerQueue

/-- A step that leaves the batch of `handleRead` and its timers alone. -/
structure Undisturbed (s s' : TimerLoop) : Prop where
  created : s.count ≤ s'.count
  phase : s'.phase = s.phase
  pending : ∀ p ∈ s'.pending, p ∈ s.pending ∨ s.queue.heap p = none
  heap : ∀ p timer, s'.queue.heap p = some timer → s.queue.heap p = some timer ∨
    (s.count < timer.number ∧ (timer.repeat_ = true → 0 ≤ timer.delta))
  keep : ∀ e ∈ s.phase.waiting, ∀ timer, s.queue.heap e.addr = some timer →
    s'.queue.heap e.addr = some timer

variable {s s' : TimerLoop}

/-- A new timer is at an address that was not in use. -/
theorem undisturbed_new {p : Addr} {when_ : Timestamp} {repeat_ : Bool} {delta : Int}
    (ha : s.Allocates p repeat_ delta) (hc : s'.count = s.count + 1)
    (hp : s'.phase = s.phase) (hpend : ∀ x ∈ s'.pending, x ∈ s.pending ∨ x = p)
    (hh : s'.queue.heap =
      Function.update s.queue.heap p (some (s.fresh when_ repeat_ delta))) :
    s.Undisturbed s' where
  created := by omega
  phase := hp
  pending := by
    intro x hx
    rcases hpend x hx with hx | rfl
    · exact Or.inl hx
    · exact Or.inr ha.1
  heap := by
    intro x timer hx
    rw [hh] at hx
    rcases Heap.update_eq_some.1 hx with ⟨_, heq⟩ | ⟨_, hx⟩
    · cases heq
      exact Or.inr ⟨Nat.lt_succ_self _, ha.2.2⟩
    · exact Or.inl hx
  keep := by
    intro e _ timer ht
    rw [hh]
    refine Heap.update_eq_some.2 (Or.inr ⟨?_, ht⟩)
    intro heq
    rw [heq, ha.1] at ht
    cases ht

/-- `cancelInLoop` deletes no timer of the batch. -/
theorem undisturbed_cancelled (hi : s.Inv) {id : TimerId} {q : TimerQueue}
    (hc : s.queue.Cancelled id q) (log : List TimerEvent) :
    s.Undisturbed { s with queue := q, log := log } := by
  cases hc with
  | @erased timer ht _ hm =>
    refine ⟨Nat.le_refl _, rfl, fun _ => Or.inl, fun x t hx => ?_, fun e he t hte => ?_⟩
    · exact Or.inl (Heap.free_eq_some.1 hx).2
    · refine Heap.free_eq_some.2 ⟨?_, hte⟩
      intro heq
      have hheld : e.addr ∈ s.held := by
        refine List.mem_append_left _ (List.mem_map_of_mem ?_)
        cases hp : s.phase with
        | calling now done todo =>
          rw [hp] at he
          exact List.mem_append_right _ he
        | idle | resetting _ _ => rw [hp] at he; cases he
      rw [heq] at hheld
      exact hi.owns.not_mem_timers hheld _ hm
  | marked | ignored =>
    exact ⟨Nat.le_refl _, rfl, fun _ => Or.inl, fun _ _ => Or.inl, fun _ _ _ ht => ht⟩

theorem step_undisturbed {op : TimerOp} (hi : s.Inv) (hs : s.Step op s')
    (ha : op.aside = true) : s.Undisturbed s' := by
  cases hs with
  | otherQueue =>
    exact ⟨Nat.le_succ _, rfl, fun _ => Or.inl, fun _ _ => Or.inl, fun _ _ _ ht => ht⟩
  | create hp => exact undisturbed_new hp rfl rfl (by simp) rfl
  | @runFunctor p pending timer clock _ hp _ =>
    obtain ⟨fd, hfd⟩ := added_eq s.queue p timer clock
    rw [hfd]
    exact ⟨Nat.le_refl _, rfl, fun x hx => Or.inl (hp ▸ List.mem_cons_of_mem _ hx),
      fun _ _ => Or.inl, fun _ _ _ ht => ht⟩
  | @addTimer p when_ repeat_ delta clock _ hp =>
    obtain ⟨fd, hfd⟩ := added_eq (s.newTimer p when_ repeat_ delta).queue p
      (s.fresh when_ repeat_ delta) clock
    rw [hfd]
    exact undisturbed_new hp rfl rfl (fun _ => Or.inl) rfl
  | cancel _ hc => exact undisturbed_cancelled hi hc _
  | handleRead | startCallback | endCallbacks | restart | delete | endReset => cases ha

end TimerLoop

/-- A callback was started: the timer then, the time of its batch and the number of the batch. -/
structure TimerStart where
  timer : Timer
  now : Timestamp
  batch : Nat

/-- A `TimerLoop` with its past. -/
structure TimerHistory where
  loop : TimerLoop
  /-- How many times `handleRead` was called. -/
  batches : Nat
  starts : List TimerStart

/-- The record of the callback that comes next. -/
def TimerLoop.starting (s : TimerLoop) (batch : Nat) : List TimerStart :=
  match s.phase with
  | .calling now _ (e :: _) => (s.queue.heap e.addr).toList.map fun timer => ⟨timer, now, batch⟩
  | _ => []

namespace TimerHistory

open TimerQueue Result

def init : TimerHistory := ⟨.init, 0, []⟩

/-- The loop has executed `op` and is now `loop`. -/
def after (h : TimerHistory) (loop : TimerLoop) : TimerOp → TimerHistory
  | .handleRead _ _ => { h with loop := loop, batches := h.batches + 1 }
  | .startCallback => { h with loop := loop, starts := h.starts ++ h.loop.starting h.batches }
  | _ => { h with loop := loop }

theorem after_aside {h : TimerHistory} {loop : TimerLoop} {op : TimerOp} (ha : op.aside = true) :
    h.after loop op = { h with loop := loop } := by
  cases op with
  | otherQueue | create _ _ _ _ | runFunctor _ | addTimer _ _ _ _ _ | cancel _ => rfl
  | handleRead _ _ | startCallback | endCallbacks | resetEntry | endReset _ => cases ha

def exec (h : TimerHistory) (op : TimerOp) : Except Fault TimerHistory := do
  let loop ← h.loop.exec op
  .ok (h.after loop op)

def machine : Machine TimerHistory TimerOp Fault where
  enabled h op := h.loop.Enabled op
  exec := exec

instance (h : TimerHistory) (op : TimerOp) : Decidable (machine.enabled h op) :=
  inferInstanceAs (Decidable (h.loop.Enabled op))

/-- `Timer::restart` does not overflow. -/
def NoOverflow (h : TimerHistory) : TimerOp → Prop
  | .resetEntry => ∀ r ∈ h.loop.phase.next?, ∀ timer ∈ h.loop.queue.heap r.2.addr,
      timer.repeat_ = true → InRange (r.1 + timer.delta)
  | _ => True

instance (h : TimerHistory) : (op : TimerOp) → Decidable (h.NoOverflow op)
  | .resetEntry => inferInstanceAs (Decidable (∀ r ∈ h.loop.phase.next?,
      ∀ timer ∈ h.loop.queue.heap r.2.addr, timer.repeat_ = true → InRange (r.1 + timer.delta)))
  | .otherQueue | .create _ _ _ _ | .runFunctor _ | .addTimer _ _ _ _ _ | .cancel _
  | .handleRead _ _ | .startCallback | .endCallbacks | .endReset _ => isTrue trivial

/-- What the record `r` says about its timer while it is live at `p`. -/
structure Follows (h : TimerHistory) (r : TimerStart) (p : Addr) (timer : Timer) : Prop where
  repeat_eq : timer.repeat_ = r.timer.repeat_
  delta_eq : timer.delta = r.timer.delta
  given : p ∉ h.loop.pending
  again : p ∉ h.loop.phase.finished.map Entry.addr → r.timer.repeat_ = true
  earlier : p ∈ h.loop.phase.waiting.map Entry.addr → r.batch < h.batches

/-- The entries of the batch that wait are due, in order, and later than those before them. -/
structure Batch (h : TimerHistory) (now : Timestamp) (todo : List Entry) : Prop where
  ordered : todo.Pairwise fun e e' => (ofLex e).1 ≤ (ofLex e').1
  due : ∀ e ∈ todo, (ofLex e).1 ≤ now
  current : ∀ e ∈ todo, ∃ timer, h.loop.queue.heap e.addr = some timer ∧
    timer.expiration = (ofLex e).1
  later : ∀ r ∈ h.starts, r.batch = h.batches → ∀ e ∈ todo, r.timer.expiration ≤ (ofLex e).1

structure Fired (h : TimerHistory) : Prop where
  batch : ∀ now done todo, h.loop.phase = .calling now done todo → h.Batch now todo
  created : ∀ r ∈ h.starts, r.timer.number ≤ h.loop.count
  numbered : ∀ r ∈ h.starts, r.batch ≤ h.batches
  due : ∀ r ∈ h.starts, r.timer.expiration ≤ r.now
  ordered : h.starts.Pairwise fun r r' =>
    r.batch = r'.batch → r.timer.expiration ≤ r'.timer.expiration
  again : h.starts.Pairwise fun r r' => r.timer.number = r'.timer.number →
    r.timer.repeat_ = true ∧ r'.timer.repeat_ = true ∧ r.batch < r'.batch
  follows : ∀ r ∈ h.starts, ∀ p timer, h.loop.queue.heap p = some timer →
    timer.number = r.timer.number → h.Follows r p timer

theorem init_fired : init.Fired :=
  ⟨nofun, nofun, nofun, nofun, .nil, .nil, nofun⟩

theorem exec_step {h h' : TimerHistory} {op : TimerOp} (hi : h.loop.Inv)
    (he : h.loop.Enabled op) (hx : h.exec op = .ok h') :
    ∃ loop, h.loop.Step op loop ∧ loop.Inv ∧ h' = h.after loop op := by
  obtain ⟨loop, hloop, hs⟩ := TimerLoop.exec_step hi he
  rw [exec, hloop, ok_bind] at hx
  exact ⟨loop, hs, TimerLoop.step_inv hi hs, (Except.ok.inj hx).symm⟩

variable {h : TimerHistory} {loop : TimerLoop} {now : Timestamp}

theorem Fired.undisturbed (hf : h.Fired) (hu : h.loop.Undisturbed loop) :
    { h with loop := loop }.Fired where
  batch := by
    intro now done todo hp
    have hp' : h.loop.phase = .calling now done todo := hu.phase.symm.trans hp
    obtain ⟨hord, hdue, hcur, hlater⟩ := hf.batch now done todo hp'
    refine ⟨hord, hdue, fun e he => ?_, hlater⟩
    obtain ⟨timer, ht, hexp⟩ := hcur e he
    exact ⟨timer, hu.keep e (by rw [hp']; exact he) timer ht, hexp⟩
  created := fun r hr => Nat.le_trans (hf.created r hr) hu.created
  numbered := hf.numbered
  due := hf.due
  ordered := hf.ordered
  again := hf.again
  follows := by
    intro r hr p timer ht hseq
    rcases hu.heap p timer ht with hold | ⟨hnew, _⟩
    · obtain ⟨hrep, hdelta, hgiven, hagain, hearlier⟩ := hf.follows r hr p timer hold hseq
      refine ⟨hrep, hdelta, fun hm => ?_, ?_, ?_⟩
      · rcases hu.pending p hm with hm | hnone
        · exact hgiven hm
        · rw [hnone] at hold; cases hold
      · show p ∉ loop.phase.finished.map Entry.addr → _
        rw [hu.phase]; exact hagain
      · show p ∈ loop.phase.waiting.map Entry.addr → _
        rw [hu.phase]; exact hearlier
    · exact absurd (hf.created r hr) (by omega)

theorem Fired.handleRead (hi : h.loop.Inv) (hf : h.Fired)
    {active : OrdSet ActiveTimer} {fd : Option Armed} (hidle : h.loop.phase = .idle) :
    Fired { h with
      loop := { h.loop with
        queue := h.loop.queue.handling now active fd
        phase := .calling now [] (h.loop.queue.timers.below (sentry now)) }
      batches := h.batches + 1 } where
  batch := by
    intro now' done todo hp
    cases hp
    refine ⟨below_ordered _ _, fun e he => fst_le_of_mem_below he, fun e he => ?_, ?_⟩
    · exact hi.owns.indexed.current (ofLex e).1 e.addr ((mem_below_iff hi.addrs_lt).1 he).1
    · intro r hr hb
      have hb' : r.batch = h.batches + 1 := hb
      exact absurd (hf.numbered r hr) (by omega)
  created := hf.created
  numbered := fun r hr => Nat.le_succ_of_le (hf.numbered r hr)
  due := hf.due
  ordered := hf.ordered
  again := hf.again
  follows := by
    intro r hr p timer ht hseq
    obtain ⟨hrep, hdelta, hgiven, hagain, _⟩ := hf.follows r hr p timer ht hseq
    refine ⟨hrep, hdelta, hgiven, fun _ => hagain ?_, fun _ => ?_⟩
    · rw [hidle]; exact List.not_mem_nil
    · exact Nat.lt_succ_of_le (hf.numbered r hr)

/-- The entry that comes next is not among those before and after it. -/
theorem next_not_mem (hi : h.loop.Inv) {done todo : List Entry} {e : Entry}
    (hp : h.loop.phase = .calling now done (e :: todo)) :
    e.addr ∉ done.map Entry.addr ∧ e.addr ∉ todo.map Entry.addr := by
  have hnd := hi.owns.owned.nodup.of_append_right
  rw [TimerLoop.held, hp, TimerPhase.batch, List.map_append, List.map_cons] at hnd
  have hnd := hnd.of_append_left
  exact ⟨fun hm => List.disjoint_of_nodup_append hnd hm List.mem_cons_self,
    (List.nodup_cons.1 hnd.of_append_right).1⟩

/-- It is not the address of a timer that is still to be added. -/
theorem next_not_pending (hi : h.loop.Inv) {done todo : List Entry} {e : Entry}
    (hp : h.loop.phase = .calling now done (e :: todo)) : e.addr ∉ h.loop.pending := by
  have hnd := hi.owns.owned.nodup.of_append_right
  rw [TimerLoop.held, hp] at hnd
  refine List.disjoint_of_nodup_append hnd ?_
  simp [TimerPhase.batch]

theorem Fired.startCallback (hi : h.loop.Inv) (hf : h.Fired)
    {done todo : List Entry} {e : Entry} {timer : Timer}
    (hp : h.loop.phase = .calling now done (e :: todo))
    (ht : h.loop.queue.heap e.addr = some timer) (log : List TimerEvent) :
    Fired { h with
      loop := { h.loop with phase := .calling now (done ++ [e]) todo, log := log }
      starts := h.starts ++ [⟨timer, now, h.batches⟩] } := by
  obtain ⟨hord, hdue, hcur, hlater⟩ := hf.batch now done (e :: todo) hp
  obtain ⟨hdone, htodo⟩ := next_not_mem hi hp
  have hexp : timer.expiration = (ofLex e).1 := by
    obtain ⟨timer', ht', hexp⟩ := hcur e List.mem_cons_self
    rw [Option.some.inj (ht.symm.trans ht')]; exact hexp
  have hfollow : ∀ r ∈ h.starts, r.timer.number = timer.number → h.Follows r e.addr timer :=
    fun r hr hseq => hf.follows r hr e.addr timer ht hseq.symm
  have hnow : timer.expiration ≤ now := hexp ▸ hdue e List.mem_cons_self
  refine ⟨?_, ?_, ?_, ?_, ?_, ?_, ?_⟩
  · intro now' done' todo' hp'
    cases hp'
    refine ⟨hord.of_cons, fun e' he' => hdue e' (List.mem_cons_of_mem _ he'),
      fun e' he' => hcur e' (List.mem_cons_of_mem _ he'), ?_⟩
    intro r hr hb e' he'
    rcases List.mem_append.1 hr with hr | hr
    · exact hlater r hr hb e' (List.mem_cons_of_mem _ he')
    · rw [List.mem_singleton.1 hr]
      show timer.expiration ≤ _
      rw [hexp]
      exact List.rel_of_pairwise_cons hord he'
  · have hbound := (hi.numbered.bound _ (hi.numbered.live _ _ ht)).2
    exact List.forall_mem_append.2 ⟨hf.created, List.forall_mem_singleton.2 hbound⟩
  · exact List.forall_mem_append.2 ⟨hf.numbered, List.forall_mem_singleton.2 (Nat.le_refl _)⟩
  · exact List.forall_mem_append.2 ⟨hf.due, List.forall_mem_singleton.2 hnow⟩
  · refine List.pairwise_append.2 ⟨hf.ordered, List.pairwise_singleton _ _, ?_⟩
    intro r hr r' hr' hb
    rw [List.mem_singleton.1 hr'] at hb ⊢
    show r.timer.expiration ≤ timer.expiration
    rw [hexp]
    exact hlater r hr hb e List.mem_cons_self
  · refine List.pairwise_append.2 ⟨hf.again, List.pairwise_singleton _ _, ?_⟩
    intro r hr r' hr' hseq
    rw [List.mem_singleton.1 hr'] at hseq ⊢
    have hfol := hfollow r hr hseq
    have hrep : r.timer.repeat_ = true := hfol.again (by rw [hp]; exact hdone)
    refine ⟨hrep, hfol.repeat_eq.trans hrep, hfol.earlier ?_⟩
    rw [hp]
    exact List.mem_cons_self
  · refine List.forall_mem_append.2 ⟨fun r hr p timer' ht' hseq => ?_,
      List.forall_mem_singleton.2 fun p timer' ht' hseq => ?_⟩
    · obtain ⟨hrep, hdelta, hgiven, hagain, hearlier⟩ := hf.follows r hr p timer' ht' hseq
      rw [hp] at hagain hearlier
      refine ⟨hrep, hdelta, hgiven, fun hm => hagain fun hm' => hm ?_, fun hm => hearlier ?_⟩
      · simp only [TimerPhase.finished, List.map_append]
        exact List.mem_append_left _ hm'
      · exact List.mem_cons_of_mem _ hm
    · obtain rfl : p = e.addr := hi.holds_unique ⟨timer', ht', hseq⟩ ⟨timer, ht, rfl⟩
      obtain rfl : timer' = timer := Option.some.inj (ht'.symm.trans ht)
      refine ⟨rfl, rfl, next_not_pending hi hp, fun hm => absurd ?_ hm, fun hm => absurd hm htodo⟩
      simp [TimerPhase.finished]

/-- A step after which no callback is left to call. -/
theorem Fired.quiet (hf : h.Fired) {queue : TimerQueue} {phase : TimerPhase}
    (hw : ∀ now done todo, phase ≠ .calling now done todo)
    (hfol : ∀ r ∈ h.starts, ∀ p timer, queue.heap p = some timer →
      timer.number = r.timer.number →
      Follows { h with loop := { h.loop with queue := queue, phase := phase } } r p timer) :
    Fired { h with loop := { h.loop with queue := queue, phase := phase } } where
  batch now done todo hp := absurd hp (hw now done todo)
  created := hf.created
  numbered := hf.numbered
  due := hf.due
  ordered := hf.ordered
  again := hf.again
  follows := hfol

theorem Fired.endCallbacks (hf : h.Fired) {done : List Entry}
    (hp : h.loop.phase = .calling now done []) :
    Fired { h with loop := { h.loop with
      queue := { h.loop.queue with callingExpiredTimers := false }
      phase := .resetting now done } } := by
  refine hf.quiet nofun fun r hr p timer ht hseq => ?_
  obtain ⟨hrep, hdelta, hgiven, hagain, _⟩ := hf.follows r hr p timer ht hseq
  rw [hp] at hagain
  exact ⟨hrep, hdelta, hgiven, hagain, nofun⟩

/-- A turn of the loop of `reset`: the timer of `e` is restarted or deleted. -/
theorem Fired.resetEntry (hf : h.Fired) {e : Entry} {todo : List Entry}
    {timer : Timer} {queue : TimerQueue} (hp : h.loop.phase = .resetting now (e :: todo))
    (ht : h.loop.queue.heap e.addr = some timer) (hheap : ∀ x t, queue.heap x = some t →
      (x ≠ e.addr ∧ h.loop.queue.heap x = some t) ∨
      (x = e.addr ∧ t = timer.restart now ∧ timer.repeat_ = true)) :
    Fired { h with loop := { h.loop with queue := queue, phase := .resetting now todo } } := by
  refine hf.quiet nofun fun r hr x t hx hseq => ?_
  rcases hheap x t hx with ⟨hne, hx⟩ | ⟨rfl, rfl, hrepeat⟩
  · obtain ⟨hrep, hdelta, hgiven, hagain, _⟩ := hf.follows r hr x t hx hseq
    refine ⟨hrep, hdelta, hgiven, fun hm => hagain ?_, nofun⟩
    rw [hp]
    exact fun hmem => hm ((List.mem_cons.1 hmem).resolve_left hne)
  · obtain ⟨hrep, hdelta, hgiven, _, _⟩ := hf.follows r hr e.addr timer ht hseq
    exact ⟨hrep, hdelta, hgiven, fun _ => hrep.symm.trans hrepeat, nofun⟩

theorem Fired.endReset (hf : h.Fired) {fd : Option Armed} (hp : h.loop.phase = .resetting now []) :
    Fired { h with loop := { h.loop with
      queue := { h.loop.queue with timerfd := fd }, phase := .idle } } := by
  refine hf.quiet nofun fun r hr p timer ht hseq => ?_
  obtain ⟨hrep, hdelta, hgiven, hagain, _⟩ := hf.follows r hr p timer ht hseq
  rw [hp] at hagain
  exact ⟨hrep, hdelta, hgiven, hagain, nofun⟩

theorem starting_eq {done todo : List Entry} {e : Entry} {timer : Timer}
    (hp : h.loop.phase = .calling now done (e :: todo))
    (ht : h.loop.queue.heap e.addr = some timer) :
    h.loop.starting h.batches = [⟨timer, now, h.batches⟩] := by
  rw [TimerLoop.starting, hp]
  simp [ht]

/-- The heap after a turn of the loop of `reset`. -/
theorem heap_restarted {q : TimerQueue} {p x : Addr} {timer t : Timer}
    (hr : timer.repeat_ = true) (hx : (q.restarted p timer now).heap x = some t) :
    (x ≠ p ∧ q.heap x = some t) ∨ (x = p ∧ t = timer.restart now ∧ timer.repeat_ = true) := by
  rcases Heap.update_eq_some.1 hx with ⟨rfl, heq⟩ | ⟨hne, hx⟩
  · exact Or.inr ⟨rfl, (Option.some.inj heq).symm, hr⟩
  · exact Or.inl ⟨hne, hx⟩

theorem step_fired {op : TimerOp} (hi : h.loop.Inv) (hf : h.Fired) (hs : h.loop.Step op loop) :
    (h.after loop op).Fired := by
  by_cases ha : op.aside = true
  · rw [after_aside ha]
    exact hf.undisturbed (TimerLoop.step_undisturbed hi hs ha)
  cases hs with
  | otherQueue | create | runFunctor | addTimer | cancel => exact absurd rfl ha
  | handleRead hidle => exact hf.handleRead hi hidle
  | startCallback hp ht =>
    rw [after, starting_eq hp ht]
    exact hf.startCallback hi hp ht _
  | endCallbacks hp => exact hf.endCallbacks hp
  | restart hp ht hr => exact hf.resetEntry hp ht fun _ _ => heap_restarted hr.1
  | delete hp ht hr => exact hf.resetEntry hp ht fun _ _ hx => Or.inl (Heap.free_eq_some.1 hx)
  | @endReset now clock hp =>
    obtain ⟨fd, hfd⟩ := h.loop.queue.rearmed_eq clock
    rw [hfd]
    exact hf.endReset hp

/-! ## The interval of a repeating timer -/

/-- A timer that was started is due again one interval after the time of that batch. -/
structure Spaced (h : TimerHistory) : Prop where
  deltas : ∀ p timer, h.loop.queue.heap p = some timer → timer.repeat_ = true → 0 ≤ timer.delta
  spaced : h.starts.Pairwise fun r r' => r.timer.number = r'.timer.number →
    r.now + r.timer.delta ≤ r'.now
  next : ∀ r ∈ h.starts, ∀ p timer, h.loop.queue.heap p = some timer →
    timer.number = r.timer.number → p ∉ h.loop.phase.finished.map Entry.addr →
    r.now + timer.delta ≤ timer.expiration
  past : ∀ r ∈ h.starts, ∀ p timer, h.loop.queue.heap p = some timer →
    timer.number = r.timer.number → p ∈ h.loop.phase.finished.map Entry.addr →
    ∀ now ∈ h.loop.phase.now?, r.now ≤ now

theorem init_spaced : init.Spaced := ⟨nofun, .nil, nofun, nofun⟩

theorem Spaced.undisturbed (hs : h.Spaced) (hf : h.Fired) (hu : h.loop.Undisturbed loop) :
    { h with loop := loop }.Spaced where
  deltas := by
    intro p timer ht
    rcases hu.heap p timer ht with hold | ⟨_, hnew⟩
    · exact hs.deltas p timer hold
    · exact hnew
  spaced := hs.spaced
  next := by
    intro r hr p timer ht hseq
    show p ∉ loop.phase.finished.map Entry.addr → _
    rcases hu.heap p timer ht with hold | ⟨hnew, _⟩
    · rw [hu.phase]
      exact hs.next r hr p timer hold hseq
    · exact absurd (hf.created r hr) (by omega)
  past := by
    intro r hr p timer ht hseq
    show p ∈ loop.phase.finished.map Entry.addr → ∀ now ∈ loop.phase.now?, _
    rcases hu.heap p timer ht with hold | ⟨hnew, _⟩
    · rw [hu.phase]
      exact hs.past r hr p timer hold hseq
    · exact absurd (hf.created r hr) (by omega)

theorem Spaced.startCallback (hs : h.Spaced) (hi : h.loop.Inv) (hf : h.Fired)
    {done todo : List Entry} {e : Entry} {timer : Timer}
    (hp : h.loop.phase = .calling now done (e :: todo))
    (ht : h.loop.queue.heap e.addr = some timer) (log : List TimerEvent) :
    Spaced { h with
      loop := { h.loop with phase := .calling now (done ++ [e]) todo, log := log }
      starts := h.starts ++ [⟨timer, now, h.batches⟩] } := by
  obtain ⟨-, hdue, hcur, -⟩ := hf.batch now done (e :: todo) hp
  obtain ⟨hdone, -⟩ := next_not_mem hi hp
  have hexp : timer.expiration ≤ now := by
    obtain ⟨timer', ht', hexp⟩ := hcur e List.mem_cons_self
    rw [Option.some.inj (ht.symm.trans ht'), hexp]
    exact hdue e List.mem_cons_self
  have hwait : e.addr ∉ h.loop.phase.finished.map Entry.addr := by rw [hp]; exact hdone
  -- the timer was restarted one interval after each of its earlier batches
  have hearlier : ∀ r ∈ h.starts, timer.number = r.timer.number →
      r.now + timer.delta ≤ now ∧ r.now ≤ now ∧ timer.delta = r.timer.delta := by
    intro r hr hseq
    have hfol := hf.follows r hr e.addr timer ht hseq
    have hnext := hs.next r hr e.addr timer ht hseq hwait
    have hpos := hs.deltas e.addr timer ht (hfol.repeat_eq.trans (hfol.again hwait))
    have hle : r.now + timer.delta ≤ now := le_trans hnext hexp
    exact ⟨hle, le_trans (Int.le_add_of_nonneg_right hpos) hle, hfol.delta_eq⟩
  refine ⟨hs.deltas, ?_, ?_, ?_⟩
  · refine List.pairwise_append.2 ⟨hs.spaced, List.pairwise_singleton _ _, ?_⟩
    intro r hr r' hr' hseq
    rw [List.mem_singleton.1 hr'] at hseq ⊢
    obtain ⟨hle, _, hdelta⟩ := hearlier r hr hseq.symm
    rw [← hdelta]
    exact hle
  · intro r hr p timer' ht' hseq hfin
    simp only [TimerPhase.finished, List.map_append, List.mem_append, not_or] at hfin
    rcases List.mem_append.1 hr with hr | hr
    · exact hs.next r hr p timer' ht' hseq (by rw [hp]; exact hfin.1)
    · rw [List.mem_singleton.1 hr] at hseq
      have hpe : p = e.addr := hi.holds_unique ⟨timer', ht', hseq⟩ ⟨timer, ht, rfl⟩
      exact absurd (by simp [hpe]) hfin.2
  · intro r hr p timer' ht' hseq hfin now' hnow
    cases hnow
    rcases List.mem_append.1 hr with hr | hr
    · by_cases hpe : p = e.addr
      · subst hpe
        obtain rfl : timer = timer' := Option.some.inj (ht.symm.trans ht')
        exact (hearlier r hr hseq).2.1
      · refine hs.past r hr p timer' ht' hseq ?_ now (by rw [hp]; rfl)
        rw [hp]
        simpa [TimerPhase.finished, hpe] using hfin
    · rw [List.mem_singleton.1 hr]

/-- A step that starts no callback and after which none of the batch is finished. -/
theorem Spaced.unfinished (hs : h.Spaced) {phase : TimerPhase} {queue : TimerQueue} {batches : Nat}
    (hq : queue.heap = h.loop.queue.heap) (hold : h.loop.phase.finished = [])
    (hnew : phase.finished = []) :
    Spaced { h with
      loop := { h.loop with queue := queue, phase := phase }, batches := batches } where
  deltas := by
    intro p timer ht
    exact hs.deltas p timer (hq ▸ ht)
  spaced := hs.spaced
  next := by
    intro r hr p timer ht hseq _
    refine hs.next r hr p timer (hq ▸ ht) hseq ?_
    rw [hold]
    exact List.not_mem_nil
  past := by
    intro r hr p timer _ _ hfin
    have hfin' : p ∈ phase.finished.map Entry.addr := hfin
    rw [hnew] at hfin'
    cases hfin'

/-- A turn of the loop of `reset`. -/
theorem Spaced.resetEntry (hs : h.Spaced) {e : Entry} {todo : List Entry}
    {timer : Timer} {queue : TimerQueue} (hp : h.loop.phase = .resetting now (e :: todo))
    (ht : h.loop.queue.heap e.addr = some timer)
    (hr : timer.repeat_ = true → InRange (now + timer.delta))
    (hheap : ∀ x t, queue.heap x = some t →
      (x ≠ e.addr ∧ h.loop.queue.heap x = some t) ∨
      (x = e.addr ∧ t = timer.restart now ∧ timer.repeat_ = true)) :
    Spaced { h with loop := { h.loop with queue := queue, phase := .resetting now todo } } where
  deltas := by
    intro x t hx hrep
    rcases hheap x t hx with ⟨_, hx⟩ | ⟨rfl, rfl, _⟩
    · exact hs.deltas x t hx hrep
    · exact hs.deltas e.addr timer ht hrep
  spaced := hs.spaced
  next := by
    intro r hrm x t hx hseq hfin
    rcases hheap x t hx with ⟨hne, hx⟩ | ⟨rfl, rfl, hrepeat⟩
    · refine hs.next r hrm x t hx hseq ?_
      rw [hp]
      exact fun hm => hfin ((List.mem_cons.1 hm).resolve_left hne)
    · have hpast := hs.past r hrm e.addr timer ht hseq (by rw [hp]; exact List.mem_cons_self) now
        (by rw [hp]; rfl)
      show r.now + timer.delta ≤ (timer.restart now).expiration
      rw [Timer.restart, if_pos hrepeat, addTime, wrap64_eq (hr hrepeat)]
      exact Int.add_le_add_right hpast _
  past := by
    intro r hrm x t hx hseq hfin
    rcases hheap x t hx with ⟨_, hx⟩ | ⟨rfl, rfl, _⟩
    · have := hs.past r hrm x t hx hseq (by rw [hp]; exact List.mem_cons_of_mem _ hfin)
      rw [hp] at this
      exact this
    · have := hs.past r hrm e.addr timer ht hseq (by rw [hp]; exact List.mem_cons_self)
      rw [hp] at this
      exact this

theorem step_spaced {op : TimerOp} (hi : h.loop.Inv) (hf : h.Fired) (hs : h.Spaced)
    (hn : h.NoOverflow op) (hstep : h.loop.Step op loop) : (h.after loop op).Spaced := by
  by_cases ha : op.aside = true
  · rw [after_aside ha]
    exact hs.undisturbed hf (TimerLoop.step_undisturbed hi hstep ha)
  cases hstep with
  | otherQueue | create | runFunctor | addTimer | cancel => exact absurd rfl ha
  | handleRead hidle => exact hs.unfinished rfl (by rw [hidle]; rfl) rfl
  | startCallback hp ht =>
    rw [after, starting_eq hp ht]
    exact hs.startCallback hi hf hp ht _
  | endCallbacks hp =>
    refine ⟨hs.deltas, hs.spaced, fun r hr p timer ht hseq hm => ?_,
      fun r hr p timer ht hseq hm => ?_⟩
    · exact hs.next r hr p timer ht hseq (by rw [hp]; exact hm)
    · have := hs.past r hr p timer ht hseq (by rw [hp]; exact hm)
      rw [hp] at this
      exact this
  | restart hp ht hr =>
    refine hs.resetEntry hp ht (fun hrep => ?_) fun _ _ => heap_restarted hr.1
    exact hn _ (by rw [hp]; rfl) _ ht hrep
  | delete hp ht hr =>
    refine hs.resetEntry hp ht (fun hrep => ?_) fun _ _ hx => Or.inl (Heap.free_eq_some.1 hx)
    exact hn _ (by rw [hp]; rfl) _ ht hrep
  | @endReset now clock hp =>
    obtain ⟨fd, hfd⟩ := h.loop.queue.rearmed_eq clock
    rw [hfd]
    exact hs.unfinished rfl (by rw [hp]; rfl) rfl

/-! ## Over whole runs -/

theorem run_fired {ops : List TimerOp} {h : TimerHistory} (hr : Machine.Run machine init ops h) :
    h.loop.Inv ∧ h.Fired := by
  refine hr.keeps (I := fun h : TimerHistory => h.loop.Inv ∧ h.Fired) ?_ ⟨.init, init_fired⟩
  rintro h op h' ⟨hi, hf⟩ he hx
  obtain ⟨loop, hs, hi', rfl⟩ := exec_step hi he hx
  refine ⟨?_, step_fired hi hf hs⟩
  cases op <;> exact hi'

theorem run_spaced {ops : List TimerOp} {h : TimerHistory}
    (hr : Machine.Run (machine.under NoOverflow) init ops h) : h.Spaced := by
  have hall : h.loop.Inv ∧ h.Fired ∧ h.Spaced := by
    refine hr.keeps (I := fun h : TimerHistory => h.loop.Inv ∧ h.Fired ∧ h.Spaced) ?_
      ⟨.init, init_fired, init_spaced⟩
    rintro h op h' ⟨hi, hf, hs⟩ ⟨he, hn⟩ hx
    obtain ⟨loop, hstep, hi', rfl⟩ := exec_step hi he hx
    refine ⟨?_, step_fired hi hf hstep, step_spaced hi hf hs hn hstep⟩
    cases op <;> exact hi'
  exact hall.2.2

/-- **Timers fire when due.** In every state of a run `getExpired(now)` returns, in order, the
entries up to `now` and leaves the later ones, and an entry carries the expiration of its timer. No
callback was started before the expiration of its timer, those of one batch were started in the
order of expiration, a timer that does not repeat was started at most once, and one that repeats at
most once in a batch. If no `Timer::restart` overflows, a repeating timer is started again only
when its interval has passed since the time of the batch before. -/
theorem timers_fire_when_due {ops : List TimerOp} {h : TimerHistory}
    (hr : Machine.Run machine init ops h) :
    (∀ now, ∃ q expired, h.loop.queue.getExpired now = .ok (q, expired) ∧
      (∀ e, e ∈ expired ↔ e ∈ h.loop.queue.timers ∧ (ofLex e).1 ≤ now) ∧
      (∀ e, e ∈ q.timers ↔ e ∈ h.loop.queue.timers ∧ now < (ofLex e).1) ∧
      expired.Pairwise fun e e' => (ofLex e).1 ≤ (ofLex e').1) ∧
    (∀ e ∈ h.loop.queue.timers, ∃ timer, h.loop.queue.heap e.addr = some timer ∧
      timer.expiration = (ofLex e).1) ∧
    (∀ r ∈ h.starts, r.timer.expiration ≤ r.now) ∧
    (h.starts.Pairwise fun r r' =>
      (r.batch = r'.batch → r.timer.expiration ≤ r'.timer.expiration) ∧
      (r.timer.number = r'.timer.number →
        r.timer.repeat_ = true ∧ r'.timer.repeat_ = true ∧ r.batch < r'.batch)) ∧
    (Machine.Run (machine.under NoOverflow) init ops h →
      h.starts.Pairwise fun r r' => r.timer.number = r'.timer.number →
        r.now + r.timer.delta ≤ r'.now) := by
  obtain ⟨hi, hf⟩ := run_fired hr
  refine ⟨fun now => ?_, fun e he => hi.owns.indexed.current (ofLex e).1 e.addr he, hf.due,
    hf.ordered.and hf.again, fun hn => (run_spaced hn).spaced⟩
  obtain ⟨active, hx, _⟩ := getExpired_eq hi.owns hi.addrs_lt now
  exact ⟨_, _, hx, fun e => mem_below_iff hi.addrs_lt, fun e => mem_above_iff hi.addrs_lt,
    below_ordered _ _⟩

/-- A timer with an interval of 50 is started at 105 and, restarted for 155, at 160. -/
theorem timers_fire_when_due_repeating :
    ∃ h, Machine.Run (machine.under NoOverflow) init
        [.addTimer 8 100 true 50 ⟨0, 0⟩, .handleRead 105 105, .startCallback, .endCallbacks,
          .resetEntry, .endReset ⟨106, 106⟩, .handleRead 160 160, .startCallback] h ∧
      h.starts.map TimerStart.now = [105, 160] ∧
      h.starts.Pairwise fun r r' => r.timer.number = r'.timer.number →
        r.now + r.timer.delta ≤ r'.now := by
  obtain ⟨h, hrun, hobs⟩ := Machine.Run.of_replay (machine.under NoOverflow) init
    [.addTimer 8 100 true 50 ⟨0, 0⟩, .handleRead 105 105, .startCallback, .endCallbacks,
      .resetEntry, .endReset ⟨106, 106⟩, .handleRead 160 160, .startCallback]
    (fun h : TimerHistory => h.starts.map TimerStart.now) [105, 160] (by decide +kernel)
  exact ⟨h, hrun, hobs, (timers_fire_when_due hrun.of_under).2.2.2.2 hrun⟩

/-- The interval is the last `double` whose microseconds are an `int64_t`: the restart overflows,
and the timer is due again at once. -/
theorem restart_overflow_fires :
    ∃ h, Machine.Run machine init
        [.addTimer 8 100 true 9223372036854773760 ⟨0, 0⟩, .handleRead 3000 3000, .startCallback,
          .endCallbacks, .resetEntry, .endReset ⟨3001, 3001⟩, .handleRead 3005 3005,
          .startCallback] h ∧
      h.starts.map (fun r => (r.timer.number, r.now)) = [(1, 3000), (1, 3005)] :=
  Machine.Run.of_replay machine init _ (fun h => h.starts.map fun r => (r.timer.number, r.now)) _
    (by decide +kernel)

end TimerHistory
end TinyMuduo

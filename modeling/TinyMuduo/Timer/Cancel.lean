import TinyMuduo.Timer.Ownership

/-!
# Timer.Cancel

Cancelled timers. `cancelInLoop` looks for the timer in `activeTimers_`, and inside `handleRead` it
leaves a mark in `cancelingTimers_` that only `reset` reads. So a timer stays silent after a
cancellation that finds it in `timers_`, started, or gone (`InTime`); one whose `addTimerInLoop`
is still queued, or that waits in the batch for its callback, is started all the same.
-/

namespace TinyMuduo
namespace TimerLoop

open TimerQueue

/-- The cancellation does not come while the timer is in a queued functor, or in the part of the
batch that is not started. -/
def InTime (s : TimerLoop) : TimerOp → Prop
  | .cancel id => s.queue.Denotes id →
      id.1 ∉ s.pending ∧ id.1 ∉ s.phase.waiting.map Entry.addr
  | _ => True

instance (s : TimerLoop) : (op : TimerOp) → Decidable (s.InTime op)
  | .cancel id => inferInstanceAs (Decidable (s.queue.Denotes id → _ ∧ _))
  | .otherQueue | .create _ _ _ _ | .runFunctor _ | .addTimer _ _ _ _ _ | .handleRead _ _
  | .startCallback | .endCallbacks | .resetEntry | .endReset _ => isTrue trivial

/-- No start of a timer comes after a cancellation of it. -/
def Silent (log : List TimerEvent) : Prop :=
  log.Pairwise fun e e' => ∀ n, e = .cancelled n → e' ≠ .started n

theorem Silent.cancel {log : List TimerEvent} (h : Silent log) (s : TimerLoop) (id : TimerId) :
    Silent (log ++ s.cancellations id) := by
  have hnone : ∀ e ∈ s.cancellations id, ∀ n, e ≠ .started n := by
    intro e he n
    obtain ⟨c, -, rfl⟩ := List.mem_map.1 he
    simp
  refine List.pairwise_append.2 ⟨h, ?_, fun e _ e' he' n _ => hnone e' he' n⟩
  exact List.pairwise_of_forall_mem_list fun e _ e' he' n _ => hnone e' he' n

theorem Silent.start {log : List TimerEvent} {n : Nat} (h : Silent log)
    (hn : .cancelled n ∉ log) : Silent (log ++ [.started n]) := by
  refine List.pairwise_append.2 ⟨h, List.pairwise_singleton _ _, ?_⟩
  intro e he e' he' m hm hs
  rw [List.mem_singleton.1 he'] at hs
  obtain rfl : n = m := TimerEvent.started.inj hs
  exact hn (hm ▸ he)

end TimerLoop

/-- The entries of the batch that were started. -/
def TimerPhase.finished : TimerPhase → List Entry
  | .idle => []
  | .calling _ done _ => done
  | .resetting _ todo => todo

def TimerPhase.isCalling : TimerPhase → Bool
  | .calling _ _ _ => true
  | .idle | .resetting _ _ => false

namespace TimerLoop

open TimerQueue

/-- A cancelled timer that is still live has been started for the last time: `reset` will find its
mark and delete it. -/
structure Stopped (s : TimerLoop) : Prop where
  calling : s.queue.callingExpiredTimers = s.phase.isCalling
  created : ∀ n, .cancelled n ∈ s.log → n ≤ s.count
  marked : ∀ p timer, s.queue.heap p = some timer → .cancelled timer.number ∈ s.log →
    p ∈ s.phase.finished.map Entry.addr ∧ toLex (p, timer.sequence) ∈ s.queue.cancelingTimers
  silent : Silent s.log

variable {s s' : TimerLoop} {op : TimerOp} {q : TimerQueue} {p x : Addr} {n : Nat} {timer : Timer}

theorem mem_cancellations {id : TimerId} :
    .cancelled n ∈ s.cancellations id ↔ (id, n) ∈ s.created := by
  simp [cancellations]

theorem Stopped.not_calling (h : s.Stopped) {now : Timestamp} {todo : List Entry}
    (hp : s.phase = .resetting now todo) : s.queue.callingExpiredTimers = false := by
  rw [h.calling, hp]
  rfl

/-- A new timer was not cancelled before. -/
theorem Stopped.alloc (h : s.Stopped) {p x : Addr} {timer t : Timer}
    (ht : timer.number = s.count + 1) (hn : .cancelled t.number ∈ s.log)
    (hx : Function.update s.queue.heap p (some timer) x = some t) : s.queue.heap x = some t := by
  rcases Heap.update_eq_some.1 hx with ⟨-, heq⟩ | ⟨-, hx⟩
  · cases heq
    have := h.created _ hn
    omega
  · exact hx

/-- Where a timer is when `cancelInLoop` does not find it. -/
theorem Inv.held_of_not_active (h : s.Inv) (ht : s.queue.heap p = some timer)
    (ha : toLex (p, timer.sequence) ∉ s.queue.activeTimers) : p ∈ s.held := by
  have hm : p ∈ s.queue.addrs ++ s.held := (h.owns.owned.live p).2 (by rw [ht]; nofun)
  rcases List.mem_append.1 hm with hm | hm
  · obtain ⟨e, he, rfl⟩ := List.mem_map.1 hm
    obtain ⟨timer', ht', hexp⟩ := h.owns.indexed.current (ofLex e).1 e.addr he
    obtain rfl : timer = timer' := Option.some.inj (ht.symm.trans ht')
    exact absurd ((h.owns.indexed.mem_active _ _).2 ⟨timer, ht, rfl, by rw [hexp]; exact he⟩) ha
  · exact hm

/-- The outcome of a cancellation in time, for a timer it is about. -/
theorem cancelled_marked (hi : s.Inv) (h : s.Stopped) {id : TimerId} (hu : s.UserCode)
    (ht : s.InTime (.cancel id)) (hc : s.queue.Cancelled id q)
    (hid : (id, timer.number) ∈ s.created) (hp : q.heap p = some timer) :
    p ∈ s.phase.finished.map Entry.addr ∧ toLex (p, timer.sequence) ∈ q.cancelingTimers := by
  have hat : s.queue.heap p = some timer → id = (p, timer.sequence) := fun hx =>
    congrArg Prod.fst (hi.numbered.unique hid (hi.numbered.live p timer hx) rfl)
  cases hc with
  | erased =>
    obtain ⟨hne, hp⟩ := Heap.free_eq_some.1 hp
    exact absurd (congrArg Prod.fst (hat hp)).symm hne
  | marked ha hcalling =>
    obtain rfl := hat hp
    obtain ⟨hpend, hwait⟩ := ht ⟨timer, hp, rfl⟩
    refine ⟨?_, OrdSet.mem_insert.2 (Or.inl rfl)⟩
    rcases List.mem_append.1 (hi.held_of_not_active hp ha) with hm | hm
    · cases hph : s.phase with
      | idle =>
        rw [hph] at hm
        cases hm
      | calling now done todo =>
        rw [hph] at hm hwait
        rw [TimerPhase.batch, List.map_append] at hm
        exact (List.mem_append.1 hm).resolve_right hwait
      | resetting now todo =>
        rw [hph] at hm
        exact hm
    · exact absurd hm hpend
  | ignored ha hcalling =>
    obtain rfl := hat hp
    obtain ⟨hpend, -⟩ := ht ⟨timer, hp, rfl⟩
    -- user code outside of the callbacks, so there is no batch
    have hidle : s.phase = .idle := by
      have hc := h.calling
      rw [hcalling] at hc
      cases hph : s.phase with
      | idle => rfl
      | calling now done todo =>
        rw [hph] at hc
        cases hc
      | resetting now todo => simp [UserCode, hph] at hu
    have hm := hi.held_of_not_active hp ha
    rw [held, hidle] at hm
    exact absurd hm hpend

/-- A cancellation keeps the marks of the timers cancelled before. -/
theorem cancelled_keeps {id : TimerId} (hc : s.queue.Cancelled id q) (hp : q.heap p = some timer) :
    s.queue.heap p = some timer ∧
      ∀ a, a ∈ s.queue.cancelingTimers → a ∈ q.cancelingTimers := by
  cases hc with
  | erased => exact ⟨(Heap.free_eq_some.1 hp).2, fun _ hm => hm⟩
  | marked => exact ⟨hp, fun _ hm => OrdSet.mem_insert.2 (Or.inr hm)⟩
  | ignored => exact ⟨hp, fun _ hm => hm⟩

theorem cancelled_calling {id : TimerId} (hc : s.queue.Cancelled id q) :
    q.callingExpiredTimers = s.queue.callingExpiredTimers := by
  cases hc <;> rfl

theorem Stopped.cancelled (h : s.Stopped) (hi : s.Inv) {id : TimerId} (hu : s.UserCode)
    (ht : s.InTime (.cancel id)) (hc : s.queue.Cancelled id q) :
    Stopped { s with queue := q, log := s.log ++ s.cancellations id } where
  calling := (cancelled_calling hc).trans h.calling
  created n hn := by
    rcases List.mem_append.1 hn with hn | hn
    · exact h.created n hn
    · exact (hi.numbered.bound _ (mem_cancellations.1 hn)).2
  marked p timer hp hn := by
    rcases List.mem_append.1 hn with hn | hn
    · obtain ⟨hp, hkeep⟩ := cancelled_keeps hc hp
      exact (h.marked p timer hp hn).imp_right (hkeep _)
    · exact cancelled_marked (s := s) hi h hu ht hc (mem_cancellations.1 hn) hp
  silent := h.silent.cancel s id

/-- The timer whose callback comes next was not cancelled. -/
theorem Stopped.not_cancelled (h : s.Stopped) (hi : s.Inv) {now : Timestamp}
    {done todo : List Entry} {e : Entry} (hp : s.phase = .calling now done (e :: todo))
    (htimer : s.queue.heap e.addr = some timer) : .cancelled timer.number ∉ s.log := by
  have hnodup : e.addr ∉ done.map Entry.addr := by
    have hnd := hi.owns.owned.nodup.of_append_right
    simp only [held, hp, TimerPhase.batch, List.map_append, List.map_cons, List.append_assoc,
      List.cons_append] at hnd
    exact fun hm => List.disjoint_of_nodup_append hnd hm List.mem_cons_self
  intro hn
  have := (h.marked e.addr timer htimer hn).1
  rw [hp] at this
  exact hnodup this

theorem step_stopped (hi : s.Inv) (h : s.Stopped) (ht : s.InTime op) (hs : s.Step op s') :
    s'.Stopped := by
  cases hs with
  | otherQueue =>
    exact ⟨h.calling, fun n hn => Nat.le_succ_of_le (h.created n hn), h.marked, h.silent⟩
  | create =>
    refine ⟨h.calling, fun n hn => Nat.le_succ_of_le (h.created n hn), ?_, h.silent⟩
    intro x t hx hn
    exact h.marked x t (h.alloc rfl hn hx) hn
  | @runFunctor p pending timer clock =>
    obtain ⟨fd, hfd⟩ := added_eq s.queue p timer clock
    rw [hfd]
    exact ⟨h.calling, h.created, h.marked, h.silent⟩
  | @addTimer p when_ repeat_ delta clock =>
    obtain ⟨fd, hfd⟩ :=
      added_eq (s.newTimer p when_ repeat_ delta).queue p (s.fresh when_ repeat_ delta) clock
    rw [hfd]
    refine ⟨h.calling, fun n hn => Nat.le_succ_of_le (h.created n hn), ?_, h.silent⟩
    intro x t hx hn
    exact h.marked x t (h.alloc rfl hn hx) hn
  | cancel hu hc => exact h.cancelled hi hu ht hc
  | handleRead hidle =>
    refine ⟨rfl, h.created, fun p timer hp hn => ?_, h.silent⟩
    have := (h.marked p timer hp hn).1
    rw [hidle] at this
    cases this
  | @startCallback now done todo e timer hp htimer =>
    have hlive := h.not_cancelled hi hp htimer
    refine ⟨by rw [h.calling, hp]; rfl, fun n hn => h.created n ?_, fun p t hm hn => ?_,
      h.silent.start hlive⟩
    · simpa using hn
    · have := h.marked p t hm (by simpa using hn)
      rw [hp] at this
      refine ⟨?_, this.2⟩
      rw [TimerPhase.finished, List.map_append]
      exact List.mem_append_left _ this.1
  | endCallbacks hp =>
    refine ⟨rfl, h.created, fun p timer hm hn => ?_, h.silent⟩
    have := h.marked p timer hm hn
    rw [hp] at this
    exact this
  | @restart now e todo timer hp htimer hr =>
    refine ⟨h.not_calling hp, h.created, fun x t hx hn => ?_, h.silent⟩
    rcases Heap.update_eq_some.1 hx with ⟨rfl, heq⟩ | ⟨hne, hx⟩
    · -- the timer that is restarted has no mark
      cases heq
      exact absurd (h.marked e.addr timer htimer hn).2 hr.2
    · have hm := h.marked x t hx hn
      rw [hp] at hm
      exact ⟨(List.mem_cons.1 hm.1).resolve_left hne, hm.2⟩
  | delete hp htimer =>
    refine ⟨h.not_calling hp, h.created, fun x t hx hn => ?_, h.silent⟩
    obtain ⟨hne, hx⟩ := Heap.free_eq_some.1 hx
    have := h.marked x t hx hn
    rw [hp] at this
    exact ⟨(List.mem_cons.1 this.1).resolve_left hne, this.2⟩
  | @endReset now clock hp =>
    obtain ⟨fd, hfd⟩ := s.queue.rearmed_eq clock
    rw [hfd]
    refine ⟨h.not_calling hp, h.created, fun x t hx hn => ?_, h.silent⟩
    have := h.marked x t hx hn
    rw [hp] at this
    exact this

/-- **Cancelled timers.** In a run whose cancellations all come in time, the callback of a timer is
never started after `cancelInLoop` has executed for its id. -/
theorem cancelled_stays_silent {ops : List TimerOp} {s : TimerLoop}
    (h : (timerLoop.under InTime).Run .init ops s) : Silent s.log := by
  have hinit : TimerLoop.init.Inv ∧ TimerLoop.init.Stopped :=
    ⟨Inv.init, rfl, nofun, nofun, List.Pairwise.nil⟩
  refine (h.keeps (I := fun s : TimerLoop => s.Inv ∧ s.Stopped) ?_ hinit).2.silent
  rintro s op s' ⟨hi, hs⟩ ⟨he, ht⟩ hx
  obtain ⟨s₁, hx₁, hstep⟩ := exec_step hi he
  obtain rfl : s₁ = s' := Except.ok.inj (hx₁.symm.trans hx)
  exact ⟨step_inv hi hstep, step_stopped hi hs ht hstep⟩

/-- A repeating timer that cancels itself in its second callback, and one that is cancelled before
it expires. -/
theorem cancelled_stays_silent_sample :
    ∃ s, (timerLoop.under InTime).Run .init
      [.addTimer 16 5 true 10 ⟨1, 1⟩, .addTimer 32 90 false 0 ⟨1, 1⟩, .handleRead 6 6,
        .startCallback, .endCallbacks, .resetEntry, .endReset ⟨7, 7⟩, .handleRead 16 16,
        .startCallback, .cancel (16, 1), .endCallbacks, .resetEntry, .endReset ⟨17, 17⟩,
        .cancel (32, 2), .handleRead 99 99, .endCallbacks, .endReset ⟨99, 99⟩] s ∧
      s.log = [.started 1, .started 1, .cancelled 1, .cancelled 2] ∧ Silent s.log := by
  refine (Machine.Run.of_replay (timerLoop.under InTime) .init _ TimerLoop.log
    [.started 1, .started 1, .cancelled 1, .cancelled 2] (by decide +kernel)).imp
    fun s ⟨hrun, hs⟩ => ⟨hrun, hs, ?_⟩
  exact cancelled_stays_silent hrun

/-- Two timers expire together and the callback of the first cancels the second: its callback is
started after that. -/
theorem cancelled_in_batch_starts :
    ∃ s, timerLoop.Run .init
      [.addTimer 16 5 false 0 ⟨1, 1⟩, .addTimer 32 5 false 0 ⟨1, 1⟩, .handleRead 6 6,
        .startCallback, .cancel (32, 2), .startCallback] s ∧
      s.log = [.started 1, .cancelled 2, .started 2] ∧ ¬ Silent s.log := by
  refine (Machine.Run.of_replay timerLoop .init _ TimerLoop.log
    [.started 1, .cancelled 2, .started 2] (by decide +kernel)).imp
    fun s ⟨hrun, hs⟩ => ⟨hrun, hs, ?_⟩
  rw [hs]
  simp [Silent]

end TimerLoop
end TinyMuduo

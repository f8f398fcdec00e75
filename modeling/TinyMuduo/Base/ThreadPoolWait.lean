import TinyMuduo.Base.ThreadPool

/-!
# Base.ThreadPoolWait

Who sleeps in a `ThreadPool`, and who wakes them.

* `Attended` — while a worker waits on `notEmpty_`, as many workers are up as there are tasks in
  the queue, and after `stop` none waits; while a caller of `run` waits on `notFull_`, as many
  callers are up as there are free slots.
* `threadPool_run` — each task is executed at most once, and the workers sleep neither on work
  nor on `stop`: after it every worker exits in a bounded number of its own steps.
* `boundedPool_stop` — `stop` notifies `notEmpty_` only. Callers of `run` are left asleep on
  `notFull_` (`boundedPool_stop_strands`), unless the queue has room for all of them.
-/

namespace TinyMuduo

/-- How many steps a worker at this place is from its exit. -/
def WorkerPlace.stepsLeft : WorkerPlace → Nat
  | .take _ => 4
  | .returned _ => 3
  | .executing _ => 2
  | .looping => 1
  | .exited => 0

/-- The worker whose step it is. -/
def PoolOp.worker : PoolOp → Option Nat
  | .test i | .take i _ | .start i | .finish i => some i
  | _ => none

namespace PoolMonitor

open Result

structure Attended (s : PoolMonitor) : Prop where
  served : notEmpty.Served s.queue.length s.workers
  stopped : s.running = false → notEmpty.waiting s.workers = 0
  bounded : 0 < s.maxQueueSize → s.queue.length ≤ s.maxQueueSize
  room : notFull.Served (s.maxQueueSize - s.queue.length) s.callers
  /-- A pool without threads makes nobody wait. -/
  direct : s.workers = [] → notFull.waiting s.callers = 0

theorem init_attended (maxQueueSize n m : Nat) : (init maxQueueSize n m).Attended where
  served := .zero
  stopped := nofun
  bounded := fun _ => Nat.zero_le _
  room := .of_waiting_eq_zero (notFull.waiting_replicate (a := .outside) nofun m)
  direct := fun _ => notFull.waiting_replicate (a := .outside) nofun m

theorem takes_iff {s : PoolMonitor} {i : Nat} (h : s.takes i = true) :
    ∃ w, s.workers[i]? = some (.take w) ∧ w.standing = .awake := by
  unfold takes at h
  split at h
  next hi => exact ⟨_, hi, rfl⟩
  next hi => exact ⟨_, hi, rfl⟩
  next => cases h

theorem executes_iff {s : PoolMonitor} {i : Nat} (h : s.executes i = true) :
    ∃ task, s.workers[i]? = some (.executing task) := by
  unfold executes at h
  split at h
  next hi => exact ⟨_, hi⟩
  next => cases h

theorem workers_eq_nil_of_set {s : PoolMonitor} {i : Nat} {p : WorkerPlace}
    (h : s.workers.set i p = []) : s.workers = [] := by
  have := congrArg List.length h
  rw [List.length_set] at this
  exact List.length_eq_zero_iff.1 this

namespace Attended

variable {s : PoolMonitor}

/-- A worker that is up moves to another place where it is up. -/
theorem worker {i : Nat} {p q : WorkerPlace} (h : s.Attended) (hi : s.workers[i]? = some p)
    (hp : notEmpty.standing p = .awake) (hq : notEmpty.standing q = .awake)
    (executed : List Nat) :
    { s with workers := s.workers.set i q, executed := executed }.Attended where
  served := h.served.set hi (by rw [hq]; decide)
    (Nat.le_of_eq (by rw [CondVar.awake, CondVar.awake, hp, hq]))
  stopped := fun hr => Nat.le_zero.1
    (h.stopped hr ▸ CondVar.waiting_set_le hi (by rw [hq]; decide))
  bounded := h.bounded
  room := h.room
  direct := fun hw => h.direct (workers_eq_nil_of_set hw)

/-- A worker that sees `running_` false leaves. -/
theorem exit {i : Nat} {p : WorkerPlace} (h : s.Attended) (hi : s.workers[i]? = some p)
    (hr : s.running = false) : { s with workers := s.workers.set i .exited }.Attended := by
  have h0 : notEmpty.waiting (s.workers.set i .exited) = 0 :=
    Nat.le_zero.1 (h.stopped hr ▸ CondVar.waiting_set_le hi nofun)
  exact ⟨.of_waiting_eq_zero h0, fun _ => h0, h.bounded, h.room,
    fun hw => h.direct (workers_eq_nil_of_set hw)⟩

theorem take {i : Nat} {woken : Option Nat} {w : Waiting} (h : s.Attended)
    (hi : s.workers[i]? = some (.take w)) (hw : w.standing = .awake)
    (hp : s.queue ≠ [] → 0 < s.maxQueueSize → notFull.Picks s.callers woken) :
    (s.take i woken).Attended := by
  unfold PoolMonitor.take
  split
  next hq =>
    by_cases hr : s.running = true
    · -- it goes to sleep on an empty queue
      rw [if_pos hr]
      exact ⟨CondVar.Served.zero.mono (by simp [hq]), fun hf => absurd (hr.symm.trans hf) nofun,
        h.bounded, h.room, fun hw => h.direct (workers_eq_nil_of_set hw)⟩
    · rw [if_neg hr]
      exact h.worker hi hw (q := .returned none) rfl s.executed
  next task rest hq =>
    have hlen : s.queue.length = rest.length + 1 := by rw [hq]; rfl
    have hset := h.worker hi hw (q := .returned (some task)) rfl s.executed
    have hb := h.bounded
    refine ⟨hset.served.mono (by rw [hlen]; exact Nat.le_succ _), hset.stopped,
      fun hm => ?_, ?_, ?_⟩
    · have := hb hm
      simp only at *
      omega
    · by_cases hm : 0 < s.maxQueueSize
      · have hfree : s.maxQueueSize - rest.length =
            s.maxQueueSize - s.queue.length + 1 := by
          have := hb hm
          omega
        simp only [if_pos hm, hfree]
        exact h.room.notify (hp (by rw [hq]; nofun) hm)
      · exact CondVar.Served.zero.mono (by simp only; omega)
    · intro hw
      have h0 := hset.direct hw
      simp only
      split
      · next hm =>
        exact Nat.le_zero.1 (h0 ▸ CondVar.waiting_notify_le (hp (by rw [hq]; nofun) hm))
      · exact h0

theorem run {s' : PoolMonitor} {i : Nat} {woken : Option Nat} (h : s.Attended)
    (he : s.Enabled (.run i woken)) (hx : s.exec (.run i woken) = .ok s') : s'.Attended := by
  obtain ⟨callable, w, hi, hw, ⟨hws, hx⟩ | ⟨hws, hf, rfl⟩ | ⟨hf, hp, rfl⟩⟩ := run_cases he hx
  · obtain ⟨_, _, hx⟩ := bind_eq_ok hx
    cases hx
    have h0 : notFull.waiting (s.callers.set i .outside) = 0 :=
      Nat.le_zero.1 (h.direct hws ▸ CondVar.waiting_set_le hi nofun)
    exact ⟨h.served, h.stopped, h.bounded, .of_waiting_eq_zero h0, fun _ => h0⟩
  · -- full: the caller goes to sleep, and there is no free slot
    simp only [isFull, Bool.and_eq_true, decide_eq_true_eq] at hf
    refine ⟨h.served, h.stopped, h.bounded, CondVar.Served.zero.mono ?_, fun hw => absurd hw hws⟩
    simp only
    omega
  · have hlen : (s.push callable).queue.length = s.queue.length + 1 := List.length_append
    have hroom : s.maxQueueSize = 0 ∨ s.queue.length < s.maxQueueSize := by
      simp only [isFull, Bool.and_eq_false_iff, decide_eq_false_iff_not] at hf
      omega
    have hawake : notFull.awake (.run callable w) = true := beq_iff_eq.2 hw
    refine ⟨?_, ?_, ?_, ?_, ?_⟩
    · simp only [hlen]
      exact h.served.notify hp
    · exact fun hr => Nat.le_zero.1 (h.stopped hr ▸ CondVar.waiting_notify_le hp)
    · intro hm
      have hm' : 0 < s.maxQueueSize := hm
      simp only [hlen]
      show s.queue.length + 1 ≤ s.maxQueueSize
      omega
    · simp only [hlen]
      show notFull.Served (s.maxQueueSize - (s.queue.length + 1)) _
      rcases hroom with h0 | hlt
      · exact CondVar.Served.zero.mono (by omega)
      · refine h.room.set hi nofun ?_
        rw [hawake, Bool.toNat_true]
        omega
    · intro hws
      have hnil : s.workers = [] := by
        have := congrArg List.length hws
        simp only [CondVar.length_notify] at this
        exact List.length_eq_zero_iff.1 this
      exact Nat.le_zero.1 (h.direct hnil ▸ CondVar.waiting_set_le hi nofun)

end Attended

theorem machine_keeps_attended : machine.Keeps Attended := by
  intro s op s' h he hx
  cases op with
  | callRun i callable =>
    cases hx
    refine ⟨h.served, h.stopped, h.bounded, h.room.set he nofun (Nat.le_add_right _ _), ?_⟩
    exact fun hw => Nat.le_zero.1 (h.direct hw ▸ CondVar.waiting_set_le he nofun)
  | run i woken => exact h.run he hx
  | test i =>
    have hi : s.workers[i]? = some .looping := he
    cases hx
    by_cases hr : s.running = true
    · rw [if_pos hr]
      exact h.worker hi rfl rfl s.executed
    · rw [if_neg hr]
      exact h.exit hi (Bool.eq_false_iff.2 hr)
  | take i woken =>
    obtain ⟨w, hi, hw⟩ := takes_iff he.1
    cases hx
    exact h.take hi hw he.2
  | start i =>
    obtain ⟨task, ht⟩ := Option.isSome_iff_exists.1 he
    have hi := holds_eq_some ht
    simp only [machine, exec, ht] at hx
    cases hx
    cases task with
    | none => exact h.worker hi rfl rfl s.executed
    | some task =>
      rw [start]
      split
      · exact h.worker hi rfl rfl _
      · exact h.worker hi rfl rfl s.executed
  | finish i =>
    obtain ⟨task, hi⟩ := executes_iff he
    cases hx
    exact h.worker hi rfl rfl s.executed
  | stop =>
    cases hx
    have h0 : notEmpty.waiting (notEmpty.notifyAll s.workers) = 0 := CondVar.waiting_notifyAll
    refine ⟨.of_waiting_eq_zero h0, fun _ => h0, h.bounded, h.room, fun hw => h.direct ?_⟩
    exact List.map_eq_nil_iff.1 hw
  | wakeWorker i =>
    have hi : notEmpty.Picks s.workers (some i) := he
    cases hx
    refine ⟨(h.served.notify hi).mono (Nat.le_succ _),
      fun hr => Nat.le_zero.1 (h.stopped hr ▸ CondVar.waiting_notify_le hi), h.bounded, h.room,
      fun hw => h.direct ?_⟩
    have := congrArg List.length hw
    simp only [CondVar.length_notify] at this
    exact List.length_eq_zero_iff.1 this
  | wakeCaller i =>
    have hi : notFull.Picks s.callers (some i) := he
    cases hx
    exact ⟨h.served, h.stopped, h.bounded, (h.room.notify hi).mono (Nat.le_succ _),
      fun hw => Nat.le_zero.1 (h.direct hw ▸ CondVar.waiting_notify_le hi)⟩

/-! ## After `stop` -/

/-- What a step does to `running_`. -/
theorem running_step {s s' : PoolMonitor} {op : PoolOp} (he : s.Enabled op)
    (hx : s.exec op = .ok s') :
    (op = .stop ∧ s'.running = false) ∨ (op ≠ .stop ∧ s'.running = s.running) := by
  cases op with
  | stop => cases hx; exact Or.inl ⟨rfl, rfl⟩
  | run i woken =>
    refine Or.inr ⟨by simp, ?_⟩
    obtain ⟨callable, w, _, _, ⟨_, hx⟩ | ⟨_, _, rfl⟩ | ⟨_, _, rfl⟩⟩ := run_cases he hx
    · obtain ⟨_, _, hx⟩ := bind_eq_ok hx
      cases hx; rfl
    · rfl
    · rfl
  | take i woken =>
    refine Or.inr ⟨by simp, ?_⟩
    cases hx
    unfold take
    split <;> rfl
  | start i =>
    refine Or.inr ⟨by simp, ?_⟩
    obtain ⟨task, ht⟩ := Option.isSome_iff_exists.1 he
    simp only [exec, ht] at hx
    cases hx
    unfold start
    split
    · rfl
    · split <;> rfl
  | callRun _ _ | test _ | finish _ | wakeWorker _ | wakeCaller _ =>
    cases hx; exact Or.inr ⟨by simp, rfl⟩

theorem stop_mem_iff {s s' : PoolMonitor} {ops : List PoolOp} (h : Machine.Run machine s ops s')
    (hs : s.running = true) : .stop ∈ ops ↔ s'.running = false := by
  have hinit : PoolOp.stop ∈ ([] : List PoolOp) ↔ s.running = false := by simp [hs]
  refine h.keeps_trace (I := fun ops s => .stop ∈ ops ↔ s.running = false) ?_ hinit
  intro ops s op s' hs he hx
  rw [List.mem_append, List.mem_singleton]
  rcases running_step he hx with ⟨rfl, hr⟩ | ⟨hne, hr⟩
  · simp [hr]
  · rw [hr, ← hs]
    exact or_iff_left (Ne.symm hne)

/-- How many more steps a worker needs to exit, once `running_` is false. -/
def stepsLeft (s : PoolMonitor) (i : Nat) : Nat := (s.workers[i]?.map WorkerPlace.stepsLeft).getD 0

/-- A worker that has not exited and is not asleep has a step of its own. -/
theorem exists_worker_step {s : PoolMonitor} {i : Nat} {p : WorkerPlace}
    (hi : s.workers[i]? = some p) (hp : p ≠ .exited) (h0 : notEmpty.waiting s.workers = 0) :
    ∃ op s', op.worker = some i ∧ s.Enabled op ∧ s.exec op = .ok s' := by
  cases p with
  | take w =>
    have htakes : s.takes i = true := by
      rw [takes, hi]
      cases w with
      | waiting => exact absurd rfl (List.countP_eq_zero.1 h0 _ (List.mem_of_getElem? hi))
      | entering | woken => rfl
    obtain ⟨woken, hpick⟩ := notFull.exists_picks s.callers
    exact ⟨.take i woken, _, rfl, ⟨htakes, fun _ _ => hpick⟩, rfl⟩
  | returned task =>
    have hholds : s.holds i = some task := by rw [holds, hi]
    exact ⟨.start i, s.start i task, rfl, by simp [Enabled, hholds], by simp only [exec, hholds]⟩
  | executing task => exact ⟨.finish i, _, rfl, by simp [Enabled, executes, hi], rfl⟩
  | looping => exact ⟨.test i, _, rfl, hi, rfl⟩
  | exited => exact absurd rfl hp

/-- A step of worker `j` that brings it nearer to its exit. -/
theorem stepsLeft_worker {s s' : PoolMonitor} {i j : Nat} {p q : WorkerPlace}
    (hw : s'.workers = s.workers.set j q) (hj : s.workers[j]? = some p)
    (hlt : q.stepsLeft < p.stepsLeft) :
    s'.stepsLeft i ≤ s.stepsLeft i ∧ (some j = some i → s'.stepsLeft i < s.stepsLeft i) := by
  by_cases hij : j = i
  · subst hij
    have hq : s'.workers[j]? = some q := by
      rw [hw, List.getElem?_set_self (List.getElem?_eq_some_iff.1 hj).1]
    simp only [stepsLeft, hq, hj, Option.map_some, Option.getD_some]
    exact ⟨Nat.le_of_lt hlt, fun _ => hlt⟩
  · have heq : s'.stepsLeft i = s.stepsLeft i := by
      rw [stepsLeft, stepsLeft, hw, List.getElem?_set_ne hij]
    exact ⟨Nat.le_of_eq heq, fun h => absurd (Option.some.inj h) hij⟩

/-- Once nobody sleeps and `running_` is false, no step of anybody takes a worker farther from its
exit, and each of its own steps brings it nearer. -/
theorem stepsLeft_step {s s' : PoolMonitor} {op : PoolOp} (hr : s.running = false)
    (h0 : notEmpty.waiting s.workers = 0) (he : s.Enabled op) (hx : s.exec op = .ok s') (i : Nat) :
    s'.stepsLeft i ≤ s.stepsLeft i ∧
      (op.worker = some i → s'.stepsLeft i < s.stepsLeft i) := by
  have hsame : s'.workers = s.workers → s'.stepsLeft i ≤ s.stepsLeft i := fun hw =>
    Nat.le_of_eq (by rw [stepsLeft, stepsLeft, hw])
  cases op with
  | stop => cases hr.symm.trans he
  | callRun _ _ | wakeCaller _ => cases hx; exact ⟨hsame rfl, nofun⟩
  | wakeWorker j =>
    have hj : notEmpty.Picks s.workers (some j) := he
    cases CondVar.picks_of_waiting_eq_zero h0 hj
  | run j woken =>
    refine ⟨?_, nofun⟩
    obtain ⟨callable, w, _, _, ⟨_, hx⟩ | ⟨_, _, rfl⟩ | ⟨_, hp, rfl⟩⟩ := run_cases he hx
    · obtain ⟨_, _, hx⟩ := bind_eq_ok hx
      cases hx; exact hsame rfl
    · exact hsame rfl
    · cases CondVar.picks_of_waiting_eq_zero h0 hp
      exact hsame rfl
  | test j =>
    have hj : s.workers[j]? = some .looping := he
    cases hx
    rw [hr]
    exact stepsLeft_worker rfl hj (by decide)
  | take j woken =>
    obtain ⟨w, hj, _⟩ := takes_iff he.1
    cases hx
    unfold take
    split
    · rw [hr]
      exact stepsLeft_worker rfl hj (Nat.lt_succ_self 3)
    · exact stepsLeft_worker rfl hj (Nat.lt_succ_self 3)
  | start j =>
    obtain ⟨task, ht⟩ := Option.isSome_iff_exists.1 he
    have hj := holds_eq_some ht
    have hlooping : WorkerPlace.looping.stepsLeft < (WorkerPlace.returned task).stepsLeft :=
      (by decide : 1 < 3)
    simp only [exec, ht] at hx
    cases hx
    unfold start
    split
    · exact stepsLeft_worker rfl hj hlooping
    · split
      · exact stepsLeft_worker rfl hj (Nat.lt_succ_self 2)
      · exact stepsLeft_worker rfl hj hlooping
  | finish j =>
    obtain ⟨task, hj⟩ := executes_iff he
    cases hx
    exact stepsLeft_worker rfl hj (Nat.lt_succ_self 1)

/-- **Thread pool.** In every run: tasks leave the queue in the order in which they came, and each
is started at most once; while a worker sleeps and the queue is not empty, as many workers are
awake, notified or executing as there are queued tasks. After `stop` no worker sleeps, every worker
that has not exited has a step of its own, and such steps, of which it has at most four, are all
that is between it and its exit. -/
theorem threadPool_run {maxQueueSize n m : Nat} {ops : List PoolOp} {s : PoolMonitor}
    (h : Machine.Run machine (init maxQueueSize n m) ops s) :
    s.taken ++ s.queue = s.pushed ∧ (s.pushed.map Task.ticket).Nodup ∧ s.executed.Nodup ∧
    (0 < notEmpty.waiting s.workers → s.queue ≠ [] →
      s.queue.length ≤ notEmpty.up s.workers) ∧
    (.stop ∈ ops →
      notEmpty.waiting s.workers = 0 ∧
      (∀ i p, s.workers[i]? = some p → p ≠ .exited →
        ∃ op s', op.worker = some i ∧ s.Enabled op ∧ s.exec op = .ok s') ∧
      ∀ op s', s.Enabled op → s.exec op = .ok s' → ∀ i, s'.stepsLeft i ≤ s.stepsLeft i ∧
        (op.worker = some i → s'.stepsLeft i < s.stepsLeft i)) := by
  have honce : s.Once := h.keeps machine_keeps_once (init_once ..)
  have hatt : s.Attended := h.keeps machine_keeps_attended (init_attended ..)
  refine ⟨honce.order, honce.distinct, honce.executed, fun hw _ => hatt.served hw, fun hstop => ?_⟩
  have hr : s.running = false := (stop_mem_iff h rfl).1 hstop
  have h0 := hatt.stopped hr
  exact ⟨h0, fun i p hi hp => exists_worker_step hi hp h0,
    fun op s' he hx i => stepsLeft_step hr h0 he hx i⟩

/-- Two workers sleep; a task wakes one of them, `stop` the other, and a second task stays in the
queue. -/
theorem threadPool_run_stopped :
    ∃ s, Machine.Run machine (init 0 2 1)
        [.test 0, .take 0 none, .test 1, .take 1 none, .callRun 0 true, .run 0 (some 1),
          .take 1 none, .start 1, .stop, .callRun 0 true, .run 0 none, .finish 1, .test 1] s ∧
      (s.executed, s.queue.length, s.workers) = ([0], 1, [.take .woken, .exited]) ∧
      notEmpty.waiting s.workers = 0 := by
  obtain ⟨s, hrun, hobs⟩ := Machine.Run.of_replay machine (init 0 2 1)
    [.test 0, .take 0 none, .test 1, .take 1 none, .callRun 0 true, .run 0 (some 1),
      .take 1 none, .start 1, .stop, .callRun 0 true, .run 0 none, .finish 1, .test 1]
    (fun s : PoolMonitor => (s.executed, s.queue.length, s.workers))
    ([0], 1, [.take .woken, .exited]) (by decide +kernel)
  exact ⟨s, hrun, hobs, ((threadPool_run hrun).2.2.2.2 (by simp)).1⟩

/-! ## Callers of `run` after `stop` -/

/-- When `stop` gets the mutex the queue has room for the tasks of all threads inside `run`, and a
`run` called later finds room for its task and for those of the others inside. -/
def Roomy (s : PoolMonitor) : PoolOp → Prop
  | .stop => notFull.present s.callers ≤ s.maxQueueSize - s.queue.length
  | .callRun _ _ =>
    s.running = false → notFull.present s.callers < s.maxQueueSize - s.queue.length
  | _ => True

instance (s : PoolMonitor) : (op : PoolOp) → Decidable (s.Roomy op)
  | .stop => inferInstanceAs (Decidable (_ ≤ _))
  | .callRun _ _ => inferInstanceAs (Decidable (_ → _))
  | .run _ _ | .test _ | .take _ _ | .start _ | .finish _ | .wakeWorker _ | .wakeCaller _ =>
    inferInstanceAs (Decidable True)

/-- After `stop` there is room for everybody inside `run`. -/
def Spare (s : PoolMonitor) : Prop :=
  s.running = false → notFull.present s.callers ≤ s.maxQueueSize - s.queue.length

theorem Spare.run {s s' : PoolMonitor} {i : Nat} {woken : Option Nat} (h : s.Spare)
    (he : s.Enabled (.run i woken)) (hx : s.exec (.run i woken) = .ok s') : s'.Spare := by
  obtain ⟨callable, w, hi, hw, hcases⟩ := run_cases he hx
  have hout := notFull.present_set hi .outside
  have hwait := notFull.present_set hi (.run callable .waiting)
  rw [CondVar.waits, CondVar.awake, show notFull.standing (.run callable w) = .awake from hw] at *
  have hone : notFull.present (s.callers.set i .outside) + 1 = notFull.present s.callers := hout
  have hsame : notFull.present (s.callers.set i (.run callable .waiting)) + 1 =
      notFull.present s.callers + 1 := hwait
  rcases hcases with ⟨_, hx⟩ | ⟨_, _, rfl⟩ | ⟨_, _, rfl⟩
  · obtain ⟨_, _, hx⟩ := bind_eq_ok hx
    cases hx
    intro hr
    have := h hr
    simp only
    omega
  · intro hr
    have := h hr
    simp only
    omega
  · intro hr
    have hle : notFull.present s.callers ≤ s.maxQueueSize - s.queue.length := h hr
    have hlen : (s.push callable).queue.length = s.queue.length + 1 := List.length_append
    show notFull.present (s.callers.set i .outside) ≤
      s.maxQueueSize - (s.push callable).queue.length
    omega

theorem roomy_keeps_spare : (machine.under Roomy).Keeps Spare := by
  intro s op s' h he hx
  obtain ⟨he, hroomy⟩ := he
  cases op with
  | callRun i callable =>
    have hi : s.callers[i]? = some .outside := he
    have hset : notFull.present (s.callers.set i (.run callable .entering)) =
        notFull.present s.callers + 1 := notFull.present_set hi _
    cases hx
    intro hr
    have hlt := hroomy hr
    simp only [hset]
    omega
  | run i woken => exact h.run he hx
  | take i woken =>
    cases hx
    unfold take
    split
    · exact h
    next task rest hq =>
      intro hr
      have hle := h hr
      simp only [hq, List.length_cons] at hle
      have hsame : notFull.present
          (if 0 < s.maxQueueSize then notFull.notify s.callers woken else s.callers) =
          notFull.present s.callers := by
        split
        · next hm => exact CondVar.present_notify (he.2 (by rw [hq]; nofun) hm)
        · rfl
      simp only [hsame]
      omega
  | start i =>
    obtain ⟨task, ht⟩ := Option.isSome_iff_exists.1 he
    simp only [Machine.under, machine, exec, ht] at hx
    cases hx
    unfold start
    split
    · exact h
    · split <;> exact h
  | stop => cases hx; exact fun _ => hroomy
  | wakeCaller i =>
    have hi : notFull.Picks s.callers (some i) := he
    cases hx
    intro hr
    simp only [CondVar.present_notify hi]
    exact h hr
  | test i | finish i | wakeWorker i => cases hx; exact h

/-- **Callers after `stop`.** In a run in which `stop` and every later `run` find room in the queue
for all threads inside `run`, no thread is left waiting there after `stop`. -/
theorem boundedPool_stop {maxQueueSize n m : Nat} {ops : List PoolOp} {s : PoolMonitor}
    (h : Machine.Run (machine.under Roomy) (init maxQueueSize n m) ops s) (hstop : .stop ∈ ops) :
    notFull.waiting s.callers = 0 := by
  have hrun : Machine.Run machine (init maxQueueSize n m) ops s := h.of_under
  have hatt : s.Attended := hrun.keeps machine_keeps_attended (init_attended ..)
  have hspare : s.Spare := h.keeps roomy_keeps_spare nofun
  have hle := hspare ((stop_mem_iff hrun rfl).1 hstop)
  rw [CondVar.present] at hle
  -- a sleeper would leave fewer threads awake than there are free slots
  by_contra hne
  have := hatt.room (Nat.pos_of_ne_zero hne)
  omega

/-- The queue is full and one more thread sleeps in `run`. `stop` wakes workers only, and the one
worker exits without taking from the queue. -/
theorem boundedPool_stop_strands :
    ∃ s, Machine.Run machine (init 1 1 2)
        [.callRun 0 true, .run 0 none, .test 0, .take 0 none, .start 0, .callRun 0 true,
          .run 0 none, .callRun 1 true, .run 1 none, .stop, .finish 0, .test 0] s ∧
      (s.workers, notFull.waiting s.callers) = ([.exited], 1) :=
  Machine.Run.of_replay machine (init 1 1 2) _ (fun s => (s.workers, notFull.waiting s.callers)) _
    (by decide +kernel)

/-- Two slots: one caller is inside `run` when the pool stops, and its task still fits. -/
theorem boundedPool_stop_roomy :
    ∃ s, Machine.Run (machine.under Roomy) (init 2 1 2)
        [.callRun 0 true, .run 0 none, .callRun 1 true, .stop, .run 1 none, .test 0] s ∧
      (s.workers, s.queue.length) = ([.exited], 2) ∧ notFull.waiting s.callers = 0 := by
  obtain ⟨s, hrun, hobs⟩ := Machine.Run.of_replay (machine.under Roomy) (init 2 1 2)
    [.callRun 0 true, .run 0 none, .callRun 1 true, .stop, .run 1 none, .test 0]
    (fun s : PoolMonitor => (s.workers, s.queue.length)) ([.exited], 2) (by decide +kernel)
  exact ⟨s, hrun, hobs, boundedPool_stop hrun (by simp)⟩

end PoolMonitor
end TinyMuduo

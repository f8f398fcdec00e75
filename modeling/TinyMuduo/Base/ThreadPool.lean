import Mathlib.Data.List.Nodup
import TinyMuduo.Lib.CondVar
import TinyMuduo.Lib.Machine
import TinyMuduo.Lib.Result

/-!
# Base.ThreadPool

`muduo::ThreadPool` after `start(numThreads)`, with its workers and the threads that call `run`.

The annotated version bounds the queue: `run` waits on `notFull_` while `maxQueueSize_ > 0` tasks
are queued. With `maxQueueSize_ = 0` it is the version without a bound, whose `cond_` is
`notEmpty_`: `isFull` is false and `take` notifies nobody. Both are modelled here as one. What a
thread does while it holds the mutex is one step; `running_` is read outside of it by the loop of
`runInThread`. A worker whose task calls `run` is one of the callers at that time.

* `PoolMonitor.Once` — tasks leave the queue in the order in which they came, and one that is queued
  or in a worker's hands has not been started.
-/

namespace TinyMuduo

/-- A `boost::function<void ()>` given to `run`. -/
structure Task where
  /-- How many tasks were given before it. -/
  ticket : Nat
  /-- The function is not empty. -/
  callable : Bool
  deriving DecidableEq

/-- Where a worker is in `runInThread`. -/
inductive WorkerPlace where
  /-- At `while (running_)`. -/
  | looping
  | take (w : Waiting)
  /-- With the result of `take`; `none` is the empty function. -/
  | returned (task : Option Task)
  | executing (task : Task)
  | exited
  deriving DecidableEq

/-- Where a thread is that may call `run`. -/
inductive CallerPlace where
  | outside
  | run (callable : Bool) (w : Waiting)
  deriving DecidableEq

structure PoolMonitor where
  maxQueueSize : Nat
  running : Bool
  queue : List Task
  /-- `threads_`. -/
  workers : List WorkerPlace
  callers : List CallerPlace
  /-- The number of tasks given to `run`, in the order of the mutex. -/
  submitted : Nat
  /-- The tasks that came into the queue, and those that left it. -/
  pushed : List Task
  taken : List Task
  /-- The tickets of the tasks that were started. -/
  executed : List Nat

inductive PoolOp where
  /-- Thread `i` calls `run`. -/
  | callRun (i : Nat) (callable : Bool)
  /-- Thread `i` has the mutex in `run`; its `notify` wakes worker `woken`. -/
  | run (i : Nat) (woken : Option Nat)
  /-- Worker `i` tests `running_`. -/
  | test (i : Nat)
  /-- Worker `i` has the mutex in `take`; its `notify` wakes caller `woken`. -/
  | take (i : Nat) (woken : Option Nat)
  /-- Worker `i` starts the task it has taken, if there is one. -/
  | start (i : Nat)
  /-- The task of worker `i` returns. -/
  | finish (i : Nat)
  /-- The critical section of `stop`. -/
  | stop
  | wakeWorker (i : Nat)
  | wakeCaller (i : Nat)

namespace PoolMonitor

open Result

variable {s s' : PoolMonitor}

inductive Fault where
  /-- `!isFull()` in `run` -/
  | assertNotFull
  /-- An empty function is called. -/
  | badFunctionCall
  deriving DecidableEq

/-- `notEmpty_`, or `cond_` of the version without a bound. -/
def notEmpty : CondVar WorkerPlace where
  standing
    | .take w => w.standing
    | .looping | .returned _ | .executing _ => .awake
    | .exited => .away
  wake | .take w => .take w.wake | p => p
  standing_wake
    | .take _, h => Waiting.standing_wake h
    | .looping, h | .returned _, h | .executing _, h | .exited, h => nomatch h

/-- `notFull_`. -/
def notFull : CondVar CallerPlace where
  standing | .run _ w => w.standing | .outside => .away
  wake | .run c w => .run c w.wake | .outside => .outside
  standing_wake
    | .run _ _, h => Waiting.standing_wake h
    | .outside, h => nomatch h

/-- `start(n)` has returned; `m` threads may call `run`. -/
def init (maxQueueSize n m : Nat) : PoolMonitor where
  maxQueueSize := maxQueueSize
  running := true
  queue := []
  workers := List.replicate n .looping
  callers := List.replicate m .outside
  submitted := 0
  pushed := []
  taken := []
  executed := []

def isFull (s : PoolMonitor) : Bool :=
  decide (0 < s.maxQueueSize) && decide (s.maxQueueSize ≤ s.queue.length)

/-- `queue_.push_back(task)`. -/
def push (s : PoolMonitor) (callable : Bool) : PoolMonitor :=
  { s with
    submitted := s.submitted + 1
    queue := s.queue ++ [⟨s.submitted, callable⟩]
    pushed := s.pushed ++ [⟨s.submitted, callable⟩] }

/-- `run` in a pool without threads: the caller executes the task. -/
def runDirectly (s : PoolMonitor) (i : Nat) (callable : Bool) : Except Fault PoolMonitor := do
  Result.ensure (callable = true) .badFunctionCall
  .ok { s with
    submitted := s.submitted + 1
    executed := s.executed ++ [s.submitted]
    callers := s.callers.set i .outside }

/-- `run` from the lock or from the return of `wait`. -/
def runQueued (s : PoolMonitor) (i : Nat) (callable : Bool) (woken : Option Nat) :
    Except Fault PoolMonitor :=
  if s.isFull then .ok { s with callers := s.callers.set i (.run callable .waiting) }
  else do
    Result.ensure (s.isFull = false) .assertNotFull
    .ok { s.push callable with
      callers := s.callers.set i .outside
      workers := notEmpty.notify s.workers woken }

def run (s : PoolMonitor) (i : Nat) (callable : Bool) (woken : Option Nat) :
    Except Fault PoolMonitor :=
  if s.workers.isEmpty then s.runDirectly i callable else s.runQueued i callable woken

/-- `take` from the lock or from the return of `wait`. -/
def take (s : PoolMonitor) (i : Nat) (woken : Option Nat) : PoolMonitor :=
  match s.queue with
  | [] =>
    let place := if s.running then .take .waiting else .returned none
    { s with workers := s.workers.set i place }
  | task :: rest =>
    { s with
      queue := rest
      taken := s.taken ++ [task]
      workers := s.workers.set i (.returned (some task))
      callers := if 0 < s.maxQueueSize then notFull.notify s.callers woken else s.callers }

/-- `if (task) task();` up to the call. -/
def start (s : PoolMonitor) (i : Nat) : Option Task → PoolMonitor
  | none => { s with workers := s.workers.set i .looping }
  | some task =>
    if task.callable then
      { s with
        workers := s.workers.set i (.executing task)
        executed := s.executed ++ [task.ticket] }
    else { s with workers := s.workers.set i .looping }

def stop (s : PoolMonitor) : PoolMonitor :=
  { s with running := false, workers := notEmpty.notifyAll s.workers }

/-- The argument of the `run` in which thread `i` can get the mutex. -/
def runs (s : PoolMonitor) (i : Nat) : Option Bool :=
  match s.callers[i]? with
  | some (.run callable .entering) | some (.run callable .woken) => some callable
  | _ => none

/-- Worker `i` can get the mutex in `take`. -/
def takes (s : PoolMonitor) (i : Nat) : Bool :=
  match s.workers[i]? with
  | some (.take .entering) | some (.take .woken) => true
  | _ => false

/-- What worker `i` has got from `take`. -/
def holds (s : PoolMonitor) (i : Nat) : Option (Option Task) :=
  match s.workers[i]? with
  | some (.returned task) => some task
  | _ => none

/-- Worker `i` executes a task. -/
def executes (s : PoolMonitor) (i : Nat) : Bool :=
  match s.workers[i]? with
  | some (.executing _) => true
  | _ => false

def exec (s : PoolMonitor) : PoolOp → Except Fault PoolMonitor
  | .callRun i callable => .ok { s with callers := s.callers.set i (.run callable .entering) }
  | .run i woken =>
    match s.runs i with
    | some callable => s.run i callable woken
    | none => .ok s
  | .test i =>
    let place := if s.running then .take .entering else .exited
    .ok { s with workers := s.workers.set i place }
  | .take i woken => .ok (s.take i woken)
  | .start i =>
    match s.holds i with
    | some task => .ok (s.start i task)
    | none => .ok s
  | .finish i => .ok { s with workers := s.workers.set i .looping }
  | .stop => .ok s.stop
  | .wakeWorker i => .ok { s with workers := notEmpty.notify s.workers (some i) }
  | .wakeCaller i => .ok { s with callers := notFull.notify s.callers (some i) }

/-- A `notify` wakes one of the threads that wait, and is lost only when there is none; `stop` is
called once. -/
def Enabled (s : PoolMonitor) : PoolOp → Prop
  | .callRun i _ => s.callers[i]? = some .outside
  | .run i woken =>
    (s.runs i).isSome ∧
      (s.workers ≠ [] → s.isFull = false → notEmpty.Picks s.workers woken)
  | .test i => s.workers[i]? = some .looping
  | .take i woken =>
    s.takes i ∧ (s.queue ≠ [] → 0 < s.maxQueueSize → notFull.Picks s.callers woken)
  | .start i => (s.holds i).isSome
  | .finish i => s.executes i
  | .stop => s.running = true
  | .wakeWorker i => notEmpty.Picks s.workers (some i)
  | .wakeCaller i => notFull.Picks s.callers (some i)

instance (s : PoolMonitor) : (op : PoolOp) → Decidable (s.Enabled op)
  | .callRun i _ => inferInstanceAs (Decidable (s.callers[i]? = _))
  | .test i => inferInstanceAs (Decidable (s.workers[i]? = _))
  | .run _ _ | .take _ _ => inferInstanceAs (Decidable (_ ∧ (_ → _ → _)))
  | .start _ | .finish _ | .stop => inferInstanceAs (Decidable (_ = true))
  | .wakeWorker i => inferInstanceAs (Decidable (notEmpty.Picks s.workers (some i)))
  | .wakeCaller i => inferInstanceAs (Decidable (notFull.Picks s.callers (some i)))

def machine : Machine PoolMonitor PoolOp Fault where
  enabled := Enabled
  exec := exec

instance (s : PoolMonitor) (op : PoolOp) : Decidable (machine.enabled s op) :=
  inferInstanceAs (Decidable (s.Enabled op))

/-! ## Each task at most once -/

/-- Worker `i` has taken `task` and has not started it. -/
def Holds (s : PoolMonitor) (i : Nat) (task : Task) : Prop :=
  s.workers[i]? = some (.returned (some task))

structure Once (s : PoolMonitor) : Prop where
  order : s.taken ++ s.queue = s.pushed
  distinct : (s.pushed.map Task.ticket).Nodup
  pushed_lt : ∀ t ∈ s.pushed, t.ticket < s.submitted
  executed : s.executed.Nodup
  executed_lt : ∀ k ∈ s.executed, k < s.submitted
  queued : ∀ t ∈ s.queue, t.ticket ∉ s.executed
  held : ∀ i t, s.Holds i t → t ∈ s.taken ∧ t.ticket ∉ s.executed
  heldOnce : ∀ i j t u, s.Holds i t → s.Holds j u → t.ticket = u.ticket → i = j

theorem init_once (maxQueueSize n m : Nat) : (init maxQueueSize n m).Once := by
  have hnone : ∀ i t, ¬ (init maxQueueSize n m).Holds i t := by
    intro i t h
    have := List.eq_of_mem_replicate (List.mem_of_getElem? h)
    cases this
  exact ⟨rfl, .nil, nofun, .nil, nofun, nofun, fun i t h => absurd h (hnone i t),
    fun i _ t _ h => absurd h (hnone i t)⟩

/-- The tickets of a task that was taken and of one in the queue differ. -/
theorem Once.taken_ne_queued (h : s.Once) {t u : Task} (ht : t ∈ s.taken)
    (hu : u ∈ s.queue) : t.ticket ≠ u.ticket := by
  have hd := h.distinct
  rw [← h.order, List.map_append, List.nodup_append] at hd
  exact hd.2.2 _ (List.mem_map_of_mem ht) _ (List.mem_map_of_mem hu)

/-- A step that gives no worker a task. -/
theorem Once.places (h : s.Once) (ws : List WorkerPlace) (cs : List CallerPlace)
    (running : Bool) (hw : ∀ i t, ws[i]? = some (.returned (some t)) → s.Holds i t) :
    { s with workers := ws, callers := cs, running := running }.Once :=
  ⟨h.order, h.distinct, h.pushed_lt, h.executed, h.executed_lt, h.queued,
    fun i t hi => h.held i t (hw i t hi),
    fun i j t u hi hj => h.heldOnce i j t u (hw i t hi) (hw j u hj)⟩

/-- A worker that goes to a place without a task. -/
theorem holds_of_set {i j : Nat} {p : WorkerPlace} {t : Task}
    (h : (s.workers.set i p)[j]? = some (.returned (some t)))
    (hp : ∀ u, p ≠ .returned (some u)) : s.Holds j t := by
  rw [List.getElem?_set] at h
  split at h
  · split at h
    · exact absurd (Option.some.inj h) (hp t)
    · cases h
  · exact h

theorem holds_of_notify {woken : Option Nat} {j : Nat} {t : Task}
    (hp : notEmpty.Picks s.workers woken)
    (h : (notEmpty.notify s.workers woken)[j]? = some (.returned (some t))) : s.Holds j t := by
  rcases CondVar.getElem?_notify hp j with he | ⟨a, ha, hn, hw⟩
  · rw [he] at h; exact h
  · -- who waits is in `take`, and is still there once woken
    rw [hn] at h
    cases a with
    | take w => cases h
    | looping | returned _ | executing _ | exited => cases hw

theorem holds_of_notifyAll {j : Nat} {t : Task}
    (h : (notEmpty.notifyAll s.workers)[j]? = some (.returned (some t))) : s.Holds j t := by
  rw [CondVar.notifyAll, List.getElem?_map] at h
  obtain ⟨a, ha, h⟩ := Option.map_eq_some_iff.1 h
  cases a with
  | take w => cases w <;> cases h
  | returned u => cases h; exact ha
  | looping | executing _ | exited => cases h

theorem Once.push (h : s.Once) (callable : Bool) : (s.push callable).Once where
  order := by simp only [PoolMonitor.push, ← List.append_assoc, h.order]
  distinct := by
    have hnew : s.submitted ∉ s.pushed.map Task.ticket := by
      intro hk
      obtain ⟨t, ht, he⟩ := List.mem_map.1 hk
      exact Nat.ne_of_lt (h.pushed_lt t ht) he
    have := List.Nodup.concat hnew h.distinct
    simpa [PoolMonitor.push] using this
  pushed_lt := by
    intro t ht
    rcases List.mem_append.1 ht with ht | ht
    · exact Nat.lt_succ_of_lt (h.pushed_lt t ht)
    · rw [List.mem_singleton.1 ht]
      exact Nat.lt_succ_self _
  executed := h.executed
  executed_lt := fun k hk => Nat.lt_succ_of_lt (h.executed_lt k hk)
  queued := by
    intro t ht
    rcases List.mem_append.1 ht with ht | ht
    · exact h.queued t ht
    · rw [List.mem_singleton.1 ht]
      exact fun hk => Nat.lt_irrefl _ (h.executed_lt _ hk)
  held := h.held
  heldOnce := h.heldOnce

theorem Once.runDirectly {i : Nat} {callable : Bool} (h : s.Once)
    (hx : s.runDirectly i callable = .ok s') : s'.Once := by
  obtain ⟨_, _, hx⟩ := bind_eq_ok hx
  cases hx
  have hnew : s.submitted ∉ s.executed := fun hk => Nat.lt_irrefl _ (h.executed_lt _ hk)
  have hother : ∀ t, t ∈ s.taken ∨ t ∈ s.queue → t.ticket ∉ s.executed →
      t.ticket ∉ s.executed ++ [s.submitted] := by
    intro t ht hk
    have hlt := h.pushed_lt t (h.order ▸ List.mem_append.2 ht)
    simp [hk, Nat.ne_of_lt hlt]
  refine ⟨h.order, h.distinct, fun t ht => Nat.lt_succ_of_lt (h.pushed_lt t ht), ?_, ?_, ?_, ?_,
    h.heldOnce⟩
  · exact List.concat_eq_append ▸ List.Nodup.concat hnew h.executed
  · intro k hk
    rcases List.mem_append.1 hk with hk | hk
    · exact Nat.lt_succ_of_lt (h.executed_lt k hk)
    · rw [List.mem_singleton.1 hk]
      exact Nat.lt_succ_self _
  · exact fun t ht => hother t (Or.inr ht) (h.queued t ht)
  · exact fun j t hj => ⟨(h.held j t hj).1, hother t (Or.inl (h.held j t hj).1) (h.held j t hj).2⟩

theorem Once.take {i : Nat} {woken : Option Nat} (h : s.Once) :
    (s.take i woken).Once := by
  unfold PoolMonitor.take
  split
  next hq =>
    refine h.places _ _ _ fun j t hj => holds_of_set hj ?_
    intro u
    split <;> nofun
  next task rest hq =>
    -- the other workers hold tasks that were taken before
    have htask : task ∈ s.queue := by rw [hq]; exact List.mem_cons_self
    have hold : ∀ j t, (s.workers.set i (.returned (some task)))[j]? =
        some (.returned (some t)) → (j = i ∧ t = task) ∨ s.Holds j t := by
      intro j t hj
      rw [List.getElem?_set] at hj
      split at hj
      next hij =>
        split at hj
        · cases hj; exact Or.inl ⟨hij.symm, rfl⟩
        · cases hj
      next => exact Or.inr hj
    refine ⟨?_, h.distinct, h.pushed_lt, h.executed, h.executed_lt, ?_, ?_, ?_⟩
    · simp only [List.append_assoc, List.singleton_append]
      rw [← hq]; exact h.order
    · exact fun t ht => h.queued t (by rw [hq]; exact List.mem_cons_of_mem _ ht)
    · intro j t hj
      rcases hold j t hj with ⟨_, rfl⟩ | hj
      · exact ⟨List.mem_append_right _ (List.mem_singleton_self _), h.queued _ htask⟩
      · exact ⟨List.mem_append_left _ (h.held j t hj).1, (h.held j t hj).2⟩
    · intro j k t u hj hk htu
      rcases hold j t hj with ⟨rfl, rfl⟩ | hj' <;> rcases hold k u hk with ⟨rfl, rfl⟩ | hk'
      · rfl
      · exact absurd htu.symm (h.taken_ne_queued (h.held k u hk').1 htask)
      · exact absurd htu (h.taken_ne_queued (h.held j t hj').1 htask)
      · exact h.heldOnce j k t u hj' hk' htu

theorem holds_eq_some {i : Nat} {task : Option Task} (h : s.holds i = some task) :
    s.workers[i]? = some (.returned task) := by
  unfold holds at h
  split at h
  next hi => cases h; exact hi
  next => cases h

theorem Once.start {i : Nat} {task : Option Task} (h : s.Once)
    (hi : s.holds i = some task) : (s.start i task).Once := by
  cases task with
  | none => exact h.places _ s.callers s.running fun j t hj => holds_of_set hj fun _ => nofun
  | some task =>
    have hhold : s.Holds i task := holds_eq_some hi
    obtain ⟨htaken, hnew⟩ := h.held i task hhold
    rw [PoolMonitor.start]
    split
    · have hne : ∀ k, k ≠ task.ticket → k ∉ s.executed → k ∉ s.executed ++ [task.ticket] := by
        intro k hk hks
        simp [hk, hks]
      have hset : ∀ j t, (s.workers.set i (.executing task))[j]? = some (.returned (some t)) →
          j ≠ i ∧ s.Holds j t := by
        intro j t hj
        refine ⟨?_, holds_of_set hj fun _ => nofun⟩
        rintro rfl
        rw [List.getElem?_set_self (List.getElem?_eq_some_iff.1 hhold).1] at hj
        cases hj
      refine ⟨h.order, h.distinct, h.pushed_lt, ?_, ?_, ?_, ?_, ?_⟩
      · exact List.concat_eq_append ▸ List.Nodup.concat hnew h.executed
      · intro k hk
        rcases List.mem_append.1 hk with hk | hk
        · exact h.executed_lt k hk
        · rw [List.mem_singleton.1 hk]
          exact h.pushed_lt task (h.order ▸ List.mem_append_left _ htaken)
      · intro t ht
        exact hne _ (h.taken_ne_queued htaken ht).symm (h.queued t ht)
      · intro j t hj
        obtain ⟨hji, hj⟩ := hset j t hj
        refine ⟨(h.held j t hj).1, hne _ (fun hk => hji ?_) (h.held j t hj).2⟩
        exact h.heldOnce j i t task hj hhold hk
      · exact fun j k t u hj hk => h.heldOnce j k t u (hset j t hj).2 (hset k u hk).2
    · exact h.places _ s.callers s.running fun j t hj => holds_of_set hj fun _ => nofun

theorem runs_eq_some {i : Nat} {callable : Bool} (h : s.runs i = some callable) :
    ∃ w, s.callers[i]? = some (.run callable w) ∧ w.standing = .awake := by
  unfold runs at h
  split at h
  next hi => cases h; exact ⟨_, hi, rfl⟩
  next hi => cases h; exact ⟨_, hi, rfl⟩
  next => cases h

/-- What `run` does with the mutex. -/
theorem run_cases {i : Nat} {woken : Option Nat}
    (he : s.Enabled (.run i woken)) (hx : s.exec (.run i woken) = .ok s') :
    ∃ callable w, s.callers[i]? = some (.run callable w) ∧ w.standing = .awake ∧
      ((s.workers = [] ∧ s.runDirectly i callable = .ok s') ∨
       (s.workers ≠ [] ∧ s.isFull = true ∧
        s' = { s with callers := s.callers.set i (.run callable .waiting) }) ∨
       (s.isFull = false ∧ notEmpty.Picks s.workers woken ∧
        s' = { s.push callable with
          callers := s.callers.set i .outside
          workers := notEmpty.notify s.workers woken })) := by
  obtain ⟨callable, hc⟩ := Option.isSome_iff_exists.1 he.1
  obtain ⟨w, hi, hw⟩ := runs_eq_some hc
  refine ⟨callable, w, hi, hw, ?_⟩
  simp only [exec, hc, run] at hx
  by_cases hws : s.workers = []
  · rw [if_pos (List.isEmpty_iff.2 hws)] at hx
    exact Or.inl ⟨hws, hx⟩
  · rw [if_neg (mt List.isEmpty_iff.1 hws), runQueued] at hx
    cases hf : s.isFull with
    | true =>
      rw [if_pos hf] at hx; cases hx
      exact Or.inr (Or.inl ⟨hws, rfl, rfl⟩)
    | false =>
      rw [if_neg (by simp [hf]), ensure_pos hf, ok_bind] at hx; cases hx
      exact Or.inr (Or.inr ⟨rfl, he.2 hws hf, rfl⟩)

theorem machine_keeps_once : machine.Keeps Once := by
  intro s op s' h he hx
  cases op with
  | callRun i callable => cases hx; exact h.places s.workers _ s.running fun _ _ hj => hj
  | run i woken =>
    obtain ⟨callable, w, _, _, ⟨_, hx⟩ | ⟨_, _, rfl⟩ | ⟨_, hp, rfl⟩⟩ := run_cases he hx
    · exact h.runDirectly hx
    · exact h.places s.workers _ s.running fun _ _ hj => hj
    · exact (h.push callable).places _ _ s.running fun j t hj => holds_of_notify hp hj
  | test i =>
    cases hx
    refine h.places _ s.callers s.running fun j t hj => holds_of_set hj ?_
    intro u
    split <;> nofun
  | take i woken => cases hx; exact h.take
  | start i =>
    obtain ⟨task, ht⟩ := Option.isSome_iff_exists.1 he
    simp only [machine, exec, ht] at hx
    cases hx
    exact h.start ht
  | finish i =>
    cases hx
    exact h.places _ s.callers s.running fun j t hj => holds_of_set hj fun _ => nofun
  | stop => cases hx; exact h.places _ s.callers false fun j t hj => holds_of_notifyAll hj
  | wakeWorker i =>
    have hi : notEmpty.Picks s.workers (some i) := he
    cases hx
    exact h.places _ s.callers s.running fun j t hj => holds_of_notify hi hj
  | wakeCaller i => cases hx; exact h.places s.workers _ s.running fun _ _ hj => hj

end PoolMonitor
end TinyMuduo

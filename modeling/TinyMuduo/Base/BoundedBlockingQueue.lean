import Mathlib.Algebra.Group.Prod
import Mathlib.Tactic.Abel
import TinyMuduo.Lib.CondVar
import TinyMuduo.Lib.Machine
import TinyMuduo.Lib.Result
import TinyMuduo.Lib.Total

/-!
# Base.BoundedBlockingQueue

`muduo::BoundedBlockingQueue<T>`, shared by any number of threads.

What a thread does while it holds the mutex is one step: from the lock, or from the return of
`wait`, to the unlock or to the next `wait`. The places of a thread say in which method it is and
whether it waits there.

* `takers`, `putters` — `notEmpty_` and `notFull_` over these places.
* `QueueMonitor.Inv` — while a taker waits, as many takers are awake as there are elements, and
  while a putter waits, as many putters are awake as there are free slots.
-/

namespace TinyMuduo

/-- `boost::circular_buffer<T> queue_`. -/
structure BoundedBlockingQueue (α : Type) where
  capacity : Nat
  queue : List α

namespace BoundedBlockingQueue

variable {α : Type}

inductive Assertion where
  /-- `!queue_.full()` in `put` -/
  | notFull
  /-- `!queue_.empty()` in `take` -/
  | notEmpty
  deriving DecidableEq

def full (q : BoundedBlockingQueue α) : Bool := q.queue.length == q.capacity

def empty (q : BoundedBlockingQueue α) : Bool := q.queue.isEmpty

/-- `put` after its loop, up to the notification. -/
def pushBack (q : BoundedBlockingQueue α) (x : α) : Except Assertion (BoundedBlockingQueue α) := do
  Result.ensure (q.full = false) .notFull
  .ok { q with queue := q.queue ++ [x] }

/-- `take` after its loop, up to the notification. -/
def popFront (q : BoundedBlockingQueue α) : Except Assertion (α × BoundedBlockingQueue α) :=
  match q.queue with
  | [] => .error .notEmpty
  | front :: rest => .ok (front, { q with queue := rest })

end BoundedBlockingQueue

/-- Where a thread is. -/
inductive QueuePlace (α : Type) where
  | outside
  | put (x : α) (w : Waiting)
  | take (w : Waiting)
  deriving DecidableEq

structure QueueMonitor (α : Type) where
  q : BoundedBlockingQueue α
  threads : List (QueuePlace α)
  /-- The elements put, and those taken, in the order of the mutex. -/
  put : List α
  taken : List α

inductive QueueOp (α : Type) where
  /-- Thread `i` calls `put(x)` or `take()`. -/
  | callPut (i : Nat) (x : α)
  | callTake (i : Nat)
  /-- Thread `i` has the mutex in `put` or `take`; its `notify` wakes thread `woken`. -/
  | put (i : Nat) (woken : Option Nat)
  | take (i : Nat) (woken : Option Nat)
  /-- Thread `i` returns from `wait` without a notification. -/
  | wakePutter (i : Nat)
  | wakeTaker (i : Nat)

namespace QueueMonitor

open BoundedBlockingQueue Result

variable {α : Type} {s s' : QueueMonitor α}

/-- `notEmpty_`. -/
def takers : CondVar (QueuePlace α) where
  standing | .take w => w.standing | _ => .away
  wake | .take w => .take w.wake | p => p
  standing_wake
    | .take _, h => Waiting.standing_wake h
    | .put _ _, h | .outside, h => nomatch h

/-- `notFull_`. -/
def putters : CondVar (QueuePlace α) where
  standing | .put _ w => w.standing | _ => .away
  wake | .put x w => .put x w.wake | p => p
  standing_wake
    | .put _ _, h => Waiting.standing_wake h
    | .take _, h | .outside, h => nomatch h

/-- A new queue, and `n` threads that have not called it. -/
def init (capacity n : Nat) : QueueMonitor α :=
  ⟨⟨capacity, []⟩, List.replicate n .outside, [], []⟩

/-- The argument of the `put` in which thread `i` can get the mutex. -/
def puts (s : QueueMonitor α) (i : Nat) : Option α :=
  match s.threads[i]? with
  | some (.put x .entering) | some (.put x .woken) => some x
  | _ => none

/-- Thread `i` can get the mutex in `take`. -/
def takes (s : QueueMonitor α) (i : Nat) : Bool := s.threads[i]?.any takers.awake

/-- `put(x)` from the lock or from the return of `wait`. -/
def runPut (s : QueueMonitor α) (i : Nat) (x : α) (woken : Option Nat) :
    Except Assertion (QueueMonitor α) :=
  if s.q.full then .ok { s with threads := s.threads.set i (.put x .waiting) }
  else do
    let q ← s.q.pushBack x
    .ok { s with
      q := q
      put := s.put ++ [x]
      threads := takers.notify (s.threads.set i .outside) woken }

/-- `take()` from the lock or from the return of `wait`. -/
def runTake (s : QueueMonitor α) (i : Nat) (woken : Option Nat) :
    Except Assertion (QueueMonitor α) :=
  if s.q.empty then .ok { s with threads := s.threads.set i (.take .waiting) }
  else do
    let r ← s.q.popFront
    .ok { s with
      q := r.2
      taken := s.taken ++ [r.1]
      threads := putters.notify (s.threads.set i .outside) woken }

def exec (s : QueueMonitor α) : QueueOp α → Except Assertion (QueueMonitor α)
  | .callPut i x => .ok { s with threads := s.threads.set i (.put x .entering) }
  | .callTake i => .ok { s with threads := s.threads.set i (.take .entering) }
  | .put i woken =>
    match s.puts i with
    | some x => s.runPut i x woken
    | none => .ok s
  | .take i woken => s.runTake i woken
  | .wakePutter i => .ok { s with threads := putters.notify s.threads (some i) }
  | .wakeTaker i => .ok { s with threads := takers.notify s.threads (some i) }

/-- Thread `i` is outside of the queue. -/
def isOutside (s : QueueMonitor α) (i : Nat) : Bool :=
  match s.threads[i]? with
  | some .outside => true
  | _ => false

/-- A `notify` wakes one of the threads that wait, and is lost only when there is none. -/
def Enabled (s : QueueMonitor α) : QueueOp α → Prop
  | .callPut i _ | .callTake i => s.isOutside i = true
  | .put i woken =>
    (s.puts i).isSome ∧ (s.q.full = false → takers.Picks (s.threads.set i .outside) woken)
  | .take i woken =>
    s.takes i ∧ (s.q.empty = false → putters.Picks (s.threads.set i .outside) woken)
  | .wakePutter i => putters.Picks s.threads (some i)
  | .wakeTaker i => takers.Picks s.threads (some i)

instance (s : QueueMonitor α) : (op : QueueOp α) → Decidable (s.Enabled op)
  | .callPut _ _ | .callTake _ => inferInstanceAs (Decidable (_ = true))
  | .put _ _ | .take _ _ => inferInstanceAs (Decidable (_ ∧ (_ → _)))
  | .wakePutter i => inferInstanceAs (Decidable (putters.Picks s.threads (some i)))
  | .wakeTaker i => inferInstanceAs (Decidable (takers.Picks s.threads (some i)))

def machine : Machine (QueueMonitor α) (QueueOp α) Assertion where
  enabled := Enabled
  exec := exec

/-! ## The invariant -/

structure Inv (capacity : Nat) (s : QueueMonitor α) : Prop where
  capacity_eq : s.q.capacity = capacity
  bounded : s.q.queue.length ≤ capacity
  fifo : s.taken ++ s.q.queue = s.put
  served : takers.Served s.q.queue.length s.threads
  room : putters.Served (capacity - s.q.queue.length) s.threads

theorem takers_apart_putters : (takers : CondVar (QueuePlace α)).Apart putters
  | .take _, _ => rfl
  | .put _ _, h | .outside, h => nomatch h

theorem putters_apart_takers : (putters : CondVar (QueuePlace α)).Apart takers
  | .put _ _, _ => rfl
  | .take _, h | .outside, h => nomatch h

theorem isOutside_iff {i : Nat} :
    s.isOutside i = true ↔ s.threads[i]? = some .outside := by
  unfold isOutside
  split <;> simp_all

theorem puts_eq_some {i : Nat} {x : α} (h : s.puts i = some x) :
    ∃ w, s.threads[i]? = some (.put x w) ∧ w.standing = .awake := by
  unfold puts at h
  split at h
  next y hi => cases h; exact ⟨_, hi, rfl⟩
  next y hi => cases h; exact ⟨_, hi, rfl⟩
  next => cases h

theorem takes_iff {i : Nat} (h : s.takes i = true) :
    ∃ w, s.threads[i]? = some (.take w) ∧ w.standing = .awake := by
  rw [takes, Option.any_eq_true] at h
  obtain ⟨p, hp, hw⟩ := h
  cases p with
  | take w => exact ⟨w, hp, eq_of_beq hw⟩
  | put _ _ | outside => cases hw

theorem init_inv (capacity n : Nat) : (init capacity n : QueueMonitor α).Inv capacity where
  capacity_eq := rfl
  bounded := Nat.zero_le _
  fifo := rfl
  served := .zero
  room := .of_waiting_eq_zero (putters.waiting_replicate (a := .outside) nofun n)

/-- A thread outside calls one of the methods. -/
theorem Inv.call {capacity : Nat} {i : Nat} {p : QueuePlace α} (h : s.Inv capacity)
    (hi : s.isOutside i = true) (hput : putters.standing p ≠ .waiting)
    (htake : takers.standing p ≠ .waiting) :
    { s with threads := s.threads.set i p }.Inv capacity where
  capacity_eq := h.capacity_eq
  bounded := h.bounded
  fifo := h.fifo
  served := h.served.set (isOutside_iff.1 hi) htake (Nat.le_add_right _ _)
  room := h.room.set (isOutside_iff.1 hi) hput (Nat.le_add_right _ _)

theorem runPut_inv {capacity : Nat} {i : Nat} {x : α} {woken : Option Nat} {w : Waiting}
    (h : s.Inv capacity) (hi : s.threads[i]? = some (.put x w)) (hw : w.standing = .awake)
    (hp : s.q.full = false → takers.Picks (s.threads.set i .outside) woken) :
    ∃ s', s.runPut i x woken = .ok s' ∧ s'.Inv capacity := by
  rw [runPut]
  cases hf : s.q.full with
  | true =>
    have hlen : s.q.queue.length = capacity := (eq_of_beq hf).trans h.capacity_eq
    refine ⟨_, rfl, h.capacity_eq, h.bounded, h.fifo, h.served.set hi nofun (Nat.le_refl _), ?_⟩
    exact CondVar.Served.zero.mono (by simp [hlen])
  | false =>
    have hlen : s.q.queue.length ≠ capacity := h.capacity_eq ▸ beq_eq_false_iff_ne.1 hf
    have hbound := h.bounded
    have hcount : (s.q.queue ++ [x]).length = s.q.queue.length + 1 := List.length_append
    rw [if_neg Bool.false_ne_true, pushBack, ensure_pos hf, ok_bind, ok_bind]
    refine ⟨_, rfl, h.capacity_eq, by simp only [hcount]; omega, ?_, ?_, ?_⟩
    · simp only
      rw [← List.append_assoc, h.fifo]
    · simp only [hcount]
      exact (h.served.set (b := .outside) hi nofun (Nat.le_refl _)).notify (hp hf)
    · simp only [hcount]
      refine CondVar.Served.notify_apart (h.room.set hi nofun ?_) takers_apart_putters (hp hf)
      rw [CondVar.awake, show putters.standing (.put x w) = .awake from hw]
      simp only [beq_self_eq_true, Bool.toNat_true]
      omega

theorem runTake_inv {capacity : Nat} {i : Nat} {woken : Option Nat} {w : Waiting}
    (h : s.Inv capacity) (hi : s.threads[i]? = some (.take w)) (hw : w.standing = .awake)
    (hp : s.q.empty = false → putters.Picks (s.threads.set i .outside) woken) :
    ∃ s', s.runTake i woken = .ok s' ∧ s'.Inv capacity := by
  have hbound := h.bounded
  have hfifo := h.fifo
  have htakers := h.served
  have hputters := h.room
  rw [runTake, empty] at *
  cases hq : s.q.queue with
  | nil =>
    refine ⟨_, rfl, h.capacity_eq, hbound, hfifo, ?_,
      hputters.set hi (fun hs => by cases hs) (Nat.le_refl _)⟩
    exact CondVar.Served.zero.mono (by simp [hq])
  | cons front rest =>
    rw [hq] at hbound hfifo htakers hputters hp
    simp only [List.length_cons] at hbound htakers hputters
    rw [List.isEmpty_cons, if_neg Bool.false_ne_true, popFront, hq, ok_bind]
    refine ⟨_, rfl, h.capacity_eq, Nat.le_of_succ_le hbound, ?_, ?_, ?_⟩
    · simp only [List.append_assoc, List.singleton_append]
      exact hfifo
    · refine CondVar.Served.notify_apart (htakers.set hi (fun hs => by cases hs) ?_)
        putters_apart_takers (hp rfl)
      rw [CondVar.awake, show takers.standing (.take w) = .awake from hw]
      exact Nat.le_refl _
    · have hfree : capacity - rest.length = capacity - (rest.length + 1) + 1 := by omega
      simp only [hfree]
      have hleft := hputters.set (b := .outside) hi (fun hs => by cases hs) (Nat.le_refl _)
      exact hleft.notify (hp rfl)

/-- One step keeps the invariant, and no assertion fails in it. -/
theorem machine_safe (capacity : Nat) :
    (machine : Machine (QueueMonitor α) (QueueOp α) Assertion).Safe (Inv capacity) := by
  intro s op h he
  cases op with
  | callPut i x | callTake i => exact ⟨_, rfl, h.call he nofun nofun⟩
  | put i woken =>
    obtain ⟨x, hx⟩ := Option.isSome_iff_exists.1 he.1
    obtain ⟨w, hi, hw⟩ := puts_eq_some hx
    obtain ⟨s', hrun, hs'⟩ := runPut_inv h hi hw he.2
    exact ⟨s', by simp only [machine, exec, hx, hrun], hs'⟩
  | take i woken =>
    obtain ⟨w, hi, hw⟩ := takes_iff he.1
    exact runTake_inv h hi hw he.2
  | wakePutter i =>
    have hi : putters.Picks s.threads (some i) := he
    exact ⟨_, rfl, h.capacity_eq, h.bounded, h.fifo,
      h.served.notify_apart putters_apart_takers hi, (h.room.notify hi).mono (Nat.le_succ _)⟩
  | wakeTaker i =>
    have hi : takers.Picks s.threads (some i) := he
    exact ⟨_, rfl, h.capacity_eq, h.bounded, h.fifo, (h.served.notify hi).mono (Nat.le_succ _),
      h.room.notify_apart takers_apart_putters hi⟩

instance (s : QueueMonitor α) (op : QueueOp α) : Decidable (machine.enabled s op) :=
  inferInstanceAs (Decidable (s.Enabled op))

/-! ## What the calls ask for -/

/-- The argument of the `put` that a thread is in. -/
def putArg : QueuePlace α → Option α
  | .put x _ => some x
  | .take _ | .outside => none

def inTake : QueuePlace α → Bool
  | .take _ => true
  | .put _ _ | .outside => false

/-- The place to which a call takes its thread. -/
def entry : QueueOp α → QueuePlace α
  | .callPut _ x => .put x .entering
  | .callTake _ => .take .entering
  | .put _ _ | .take _ _ | .wakePutter _ | .wakeTaker _ => .outside

/-- The arguments of the calls of `put`. -/
def putCalls (ops : List (QueueOp α)) : List α := ops.filterMap fun op => putArg (entry op)

def takeCalls (ops : List (QueueOp α)) : Nat := ops.countP fun op => inTake (entry op)

/-- What a thread has still to put, and how often it has still to take. -/
def owes (p : QueuePlace α) : Multiset α × Nat := ((putArg p).toList, (inTake p).toNat)

/-- What was put and taken, and what the threads have still to do. -/
def total (s : QueueMonitor α) : Multiset α × Nat :=
  ((s.put : Multiset α), s.taken.length) + (s.threads.map owes).sum

theorem sum_owes {β : Type} (g : β → QueuePlace α) (l : List β) :
    (l.map fun b => owes (g b)).sum =
      (↑(l.filterMap fun b => putArg (g b)), l.countP fun b => inTake (g b)) := by
  rw [← List.sum_map_toList, ← List.sum_map_toNat]
  induction l with
  | nil => rfl
  | cons b l ih =>
    rw [List.map_cons, List.sum_cons, ih]
    rfl

theorem takers_map_owes (ts : List (QueuePlace α)) (woken : Option Nat) :
    (takers.notify ts woken).map owes = ts.map owes :=
  takers.map_notify (fun p => by cases p <;> rfl) ts woken

theorem putters_map_owes (ts : List (QueuePlace α)) (woken : Option Nat) :
    (putters.notify ts woken).map owes = ts.map owes :=
  putters.map_notify (fun p => by cases p <;> rfl) ts woken

/-- A thread comes to another place, and does so much of what it owes. -/
theorem total_set {i : Nat} {p p' : QueuePlace α} {put taken : List α}
    {ts : List (QueuePlace α)} (hi : s.threads[i]? = some p)
    (hts : ts.map owes = (s.threads.set i p').map owes) {asked : Multiset α × Nat}
    (howes : ((put : Multiset α), taken.length) + owes p' =
      ((s.put : Multiset α), s.taken.length) + owes p + asked) (q : BoundedBlockingQueue α) :
    total ⟨q, ts, put, taken⟩ = total s + asked := by
  have hset := List.sum_map_set (f := owes) (b := p') hi rfl rfl
  refine add_right_cancel (b := owes p) ?_
  calc total ⟨q, ts, put, taken⟩ + owes p
      = ((put : Multiset α), taken.length) + ((s.threads.map owes).sum + owes p') := by
        rw [total, hts, add_assoc, hset]
    _ = total s + asked + owes p := by
        rw [add_left_comm, howes, total]
        abel

theorem exec_total {op : QueueOp α} (he : s.Enabled op)
    (hx : s.exec op = .ok s') : total s' = total s + owes (entry op) := by
  cases op with
  | callPut i x | callTake i =>
    cases hx
    refine total_set (isOutside_iff.1 he) rfl ?_ _
    rw [show owes (.outside : QueuePlace α) = 0 from rfl, add_zero]
    rfl
  | put i woken =>
    obtain ⟨x, hi⟩ := Option.isSome_iff_exists.1 he.1
    rw [exec, hi] at hx
    obtain ⟨w, hi, -⟩ := puts_eq_some hi
    simp only [runPut] at hx
    split at hx
    · cases hx
      exact total_set hi rfl (by simp [owes, putArg, inTake, entry]) _
    · obtain ⟨q, -, hx⟩ := bind_eq_ok hx
      cases hx
      refine total_set hi (takers_map_owes _ _) ?_ _
      simp [owes, putArg, inTake, entry, ← Multiset.coe_add]
  | take i woken =>
    obtain ⟨w, hi, -⟩ := takes_iff he.1
    simp only [exec, runTake] at hx
    split at hx
    · cases hx
      exact total_set hi rfl (by simp [owes, putArg, inTake, entry]) _
    · obtain ⟨r, -, hx⟩ := bind_eq_ok hx
      cases hx
      refine total_set hi (putters_map_owes _ _) ?_ _
      simp [owes, putArg, inTake, entry]
  | wakePutter i =>
    cases hx
    simp [total, putters_map_owes, entry, owes, putArg, inTake]
  | wakeTaker i =>
    cases hx
    simp [total, takers_map_owes, entry, owes, putArg, inTake]

theorem run_total {ops : List (QueueOp α)} (h : Machine.Run machine s ops s') :
    total s' = total s + (ops.map fun op => owes (entry op)).sum := by
  induction h with
  | nil => rw [List.map_nil, List.sum_nil, add_zero]
  | cons he hx _ ih => rw [ih, exec_total he hx, List.map_cons, List.sum_cons, add_assoc]

/-- Each call of `put` puts its argument once, and each `take()` takes once. -/
theorem run_calls {capacity n : Nat} {ops : List (QueueOp α)}
    (h : Machine.Run machine (init capacity n) ops s) :
    (s.put ++ s.threads.filterMap putArg).Perm (putCalls ops) ∧
      s.taken.length + s.threads.countP inTake = takeCalls ops := by
  have hinit : total (init capacity n : QueueMonitor α) = 0 := by
    simp [total, init, owes, putArg, inTake]
  have hthreads : (s.threads.map owes).sum = _ := sum_owes id s.threads
  have htotal := run_total h
  rw [hinit, zero_add, sum_owes, total, hthreads] at htotal
  obtain ⟨hput, htake⟩ := Prod.mk.inj htotal
  exact ⟨Multiset.coe_eq_coe.1 ((Multiset.coe_add _ _).symm.trans hput), htake⟩

/-- **A bounded FIFO without lost wakeups.** At every moment of a run, with any number of threads:
the queue holds at most `capacity` elements; what was taken is a prefix of what was put; what was
put, and what the threads in `put` have still to put, are the arguments of its calls, and each
`take()` takes once; while a taker sleeps on a queue that is not empty, as many takers are awake or
notified as there are elements, and while a putter sleeps on a queue that is not full, as many
putters as there are free slots; and no assertion fails in the next step. -/
theorem boundedBlockingQueue_run {capacity n : Nat} {ops : List (QueueOp α)} {s : QueueMonitor α}
    (h : Machine.Run machine (init capacity n) ops s) :
    s.q.queue.length ≤ capacity ∧ s.taken <+: s.put ∧
    (s.put ++ s.threads.filterMap putArg).Perm (putCalls ops) ∧
    s.taken.length + s.threads.countP inTake = takeCalls ops ∧
    (0 < takers.waiting s.threads → s.q.queue ≠ [] →
      s.q.queue.length ≤ takers.up s.threads) ∧
    (0 < putters.waiting s.threads → s.q.queue.length < capacity →
      capacity - s.q.queue.length ≤ putters.up s.threads) ∧
    ∀ op, s.Enabled op → ∃ s', s.exec op = .ok s' := by
  obtain ⟨hinv, hnext⟩ := (machine_safe capacity).run h (init_inv capacity n)
  obtain ⟨hput, htake⟩ := run_calls h
  exact ⟨hinv.bounded, ⟨_, hinv.fifo⟩, hput, htake, fun hw _ => hinv.served hw,
    fun hw _ => hinv.room hw, hnext⟩

/-- One slot and two sleeping takers: thread 2 puts and wakes the second, but the first wakes
spuriously and takes the element. The next `put` of thread 2 had to wait and is notified. -/
theorem boundedBlockingQueue_run_contended :
    ∃ s, Machine.Run machine (init 1 4)
        [.callTake 0, .take 0 none, .callTake 1, .take 1 none, .callPut 2 7, .put 2 (some 1),
          .callPut 2 8, .put 2 none, .callPut 3 9, .wakeTaker 0, .take 0 (some 2),
          .take 1 none] s ∧
      (s.put, s.taken, takers.waiting s.threads, putters.up s.threads) = ([7], [7], 1, 2) ∧
      s.taken <+: s.put := by
  obtain ⟨s, hrun, hobs⟩ := Machine.Run.of_replay machine (init 1 4)
    [.callTake 0, .take 0 none, .callTake 1, .take 1 none, .callPut 2 7, .put 2 (some 1),
      .callPut 2 8, .put 2 none, .callPut 3 9, .wakeTaker 0, .take 0 (some 2), .take 1 none]
    (fun s : QueueMonitor Nat =>
      (s.put, s.taken, takers.waiting s.threads, putters.up s.threads)) ([7], [7], 1, 2)
    (by decide +kernel)
  exact ⟨s, hrun, hobs, (boundedBlockingQueue_run hrun).2.1⟩

end QueueMonitor
end TinyMuduo

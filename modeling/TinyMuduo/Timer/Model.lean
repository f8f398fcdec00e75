import Mathlib.Algebra.Order.Ring.Int
import Mathlib.Data.Prod.Lex
import TinyMuduo.Lib.OrdSet
import TinyMuduo.Lib.Result

/-!
# Timer.Model

`muduo::net::TimerQueue` and `Timer`. A `Timer` lives on the heap, at an address that may be used
again after `delete`; every access to a `Timer*` goes through `deref`. The clock is an argument of
each function that reads it. Timestamps are `int64_t` microseconds and wrap around, and so does the
counter that the sequences come from; which timer one means is said by its `number`, which the code
does not have.
-/

namespace TinyMuduo

/-- The value of a `Timer*`. -/
abbrev Addr := Nat

/-- `UINTPTR_MAX`. -/
def maxAddr : Addr := 2 ^ 64 - 1

/-- `microSecondsSinceEpoch_`. -/
abbrev Timestamp := Int

def wrap64 (x : Int) : Int := x.bmod (2 ^ 64)

def Timestamp.valid (t : Timestamp) : Bool := 0 < t

/-- `addTime`, with the seconds already converted to `delta` microseconds. -/
def addTime (t : Timestamp) (delta : Int) : Timestamp := wrap64 (t + delta)

structure Timer where
  expiration : Timestamp
  repeat_ : Bool
  /-- `interval_` in microseconds, as `addTime` truncates it. -/
  delta : Int
  /-- `sequence_`, an `int64_t`. -/
  sequence : Int
  /-- How many timers had been created with it. -/
  number : Nat
  deriving DecidableEq

def Timer.restart (t : Timer) (now : Timestamp) : Timer :=
  { t with expiration := if t.repeat_ then addTime now t.delta else 0 }

/-- `TimerQueue::Entry`. -/
abbrev Entry := Timestamp ×ₗ Addr

/-- `TimerQueue::ActiveTimer`. -/
abbrev ActiveTimer := Addr ×ₗ Int

/-- The address and the sequence of the timer. -/
abbrev TimerId := Addr × Int

/-! ## The timerfd -/

structure Timespec where
  tv_sec : Int
  tv_nsec : Int

def kMicroSecondsPerSecond : Int := 1000 * 1000

def howMuchTimeFromNow (when_ now : Timestamp) : Timespec :=
  let microseconds := max (wrap64 (when_ - now)) 100
  { tv_sec := microseconds / kMicroSecondsPerSecond
    tv_nsec := (microseconds % kMicroSecondsPerSecond) * 1000 }

def Timespec.microseconds (ts : Timespec) : Int :=
  ts.tv_sec * kMicroSecondsPerSecond + ts.tv_nsec / 1000

/-- What the clock says when `howMuchTimeFromNow` reads it, and when `timerfd_settime` does. -/
structure Clock where
  now : Timestamp
  settime : Timestamp
  deriving DecidableEq

/-- A timerfd that is armed: by which readings of the clock, and when it expires. -/
structure Armed where
  clock : Clock
  deadline : Timestamp
  deriving DecidableEq

/-! ## The queue -/

structure TimerQueue where
  heap : Addr → Option Timer
  timers : OrdSet Entry
  activeTimers : OrdSet ActiveTimer
  callingExpiredTimers : Bool
  cancelingTimers : OrdSet ActiveTimer
  /-- The state of `timerfd_`; `none` when it is disarmed, or has expired and was read. -/
  timerfd : Option Armed
  /-- The numbers of the deleted timers, in order. -/
  deleted : List Nat

namespace TimerQueue

inductive Assertion where
  /-- `timers_.size() == activeTimers_.size()` -/
  | sizes
  /-- `result.second`, for `timers_` -/
  | timerInserted
  /-- `result.second`, for `activeTimers_` -/
  | activeInserted
  /-- `n == 1`, for `timers_` -/
  | timerErased
  /-- `n == 1`, for `activeTimers_` -/
  | activeErased
  /-- `end == timers_.end() || now < end->first` -/
  | endNotExpired
  deriving DecidableEq

inductive Fault where
  | assertion (a : Assertion)
  | useAfterFree (p : Addr)
  | doubleFree (p : Addr)
  deriving DecidableEq

def check (p : Prop) [Decidable p] (a : Assertion) : Except Fault Unit :=
  Result.ensure p (.assertion a)

def init : TimerQueue := ⟨fun _ => none, .empty, .empty, false, .empty, none, []⟩

def deref (q : TimerQueue) (p : Addr) : Except Fault Timer :=
  match q.heap p with
  | some timer => .ok timer
  | none => .error (.useAfterFree p)

/-- `delete p`. -/
def delete (q : TimerQueue) (p : Addr) : Except Fault TimerQueue :=
  match q.heap p with
  | some timer =>
    .ok { q with
      heap := Function.update q.heap p none
      deleted := q.deleted ++ [timer.number] }
  | none => .error (.doubleFree p)

def resetTimerfd (q : TimerQueue) (expiration : Timestamp) (clock : Clock) : TimerQueue :=
  let wait := (howMuchTimeFromNow expiration clock.now).microseconds
  { q with timerfd := some ⟨clock, clock.settime + wait⟩ }

/-- `readTimerfd` at time `t`. -/
def readTimerfd (q : TimerQueue) (t : Timestamp) : TimerQueue :=
  match q.timerfd with
  | some armed => if armed.deadline ≤ t then { q with timerfd := none } else q
  | none => q

def sizesEqual (q : TimerQueue) : Except Fault Unit :=
  check (q.timers.size = q.activeTimers.size) .sizes

/-- Whether an entry at `when_` comes before all others. -/
def isEarliest (q : TimerQueue) (when_ : Timestamp) : Bool :=
  match q.timers.begin? with
  | none => true
  | some e => when_ < (ofLex e).1

def insert (q : TimerQueue) (p : Addr) : Except Fault (TimerQueue × Bool) := do
  q.sizesEqual
  let timer ← q.deref p
  let earliestChanged := q.isEarliest timer.expiration
  let timers := q.timers.insert (toLex (timer.expiration, p))
  check (timers.2 = true) .timerInserted
  let active := q.activeTimers.insert (toLex (p, timer.sequence))
  check (active.2 = true) .activeInserted
  let q' := { q with timers := timers.1, activeTimers := active.1 }
  q'.sizesEqual
  .ok (q', earliestChanged)

def addTimerInLoop (q : TimerQueue) (p : Addr) (clock : Clock) : Except Fault TimerQueue := do
  let r ← q.insert p
  if r.2 then
    let timer ← r.1.deref p
    .ok (r.1.resetTimerfd timer.expiration clock)
  else .ok r.1

/-- The branch of `cancelInLoop` for a timer in `activeTimers_`. -/
def eraseTimer (q : TimerQueue) (id : TimerId) : Except Fault TimerQueue := do
  let timer ← q.deref id.1
  let timers := q.timers.erase (toLex (timer.expiration, id.1))
  check (timers.2 = 1) .timerErased
  let q' ← { q with timers := timers.1 }.delete id.1
  .ok { q' with activeTimers := (q'.activeTimers.erase (toLex id)).1 }

/-- `cancelInLoop` between its assertions on the sizes. -/
def cancelActive (q : TimerQueue) (id : TimerId) : Except Fault TimerQueue :=
  if toLex id ∈ q.activeTimers then q.eraseTimer id
  else if q.callingExpiredTimers then
    .ok { q with cancelingTimers := (q.cancelingTimers.insert (toLex id)).1 }
  else .ok q

def cancelInLoop (q : TimerQueue) (id : TimerId) : Except Fault TimerQueue := do
  q.sizesEqual
  let q' ← q.cancelActive id
  q'.sizesEqual
  .ok q'

/-- The loop of `getExpired` over `activeTimers_`. -/
def eraseActive (q : TimerQueue) : List Entry → Except Fault TimerQueue
  | [] => .ok q
  | e :: expired => do
    let p := (ofLex e).2
    let timer ← q.deref p
    let active := q.activeTimers.erase (toLex (p, timer.sequence))
    check (active.2 = 1) .activeErased
    eraseActive { q with activeTimers := active.1 } expired

/-- The sentry of `getExpired`. -/
def sentry (now : Timestamp) : Entry := toLex (now, maxAddr)

/-- `end == timers_.end() || now < end->first`. -/
def endNotExpired (q : TimerQueue) (now : Timestamp) : Bool :=
  match (q.timers.above (sentry now)).begin? with
  | none => true
  | some e => now < (ofLex e).1

def getExpired (q : TimerQueue) (now : Timestamp) : Except Fault (TimerQueue × List Entry) := do
  q.sizesEqual
  check (q.endNotExpired now = true) .endNotExpired
  let expired := q.timers.below (sentry now)
  let q' ← { q with timers := q.timers.above (sentry now) }.eraseActive expired
  q'.sizesEqual
  .ok (q', expired)

/-- `handleRead` up to its loop, with the clock at `Timestamp::now()` and at `read(timerfd)`. -/
def beginHandleRead (q : TimerQueue) (now readAt : Timestamp) :
    Except Fault (TimerQueue × List Entry) := do
  let r ← (q.readTimerfd readAt).getExpired now
  .ok ({ r.1 with callingExpiredTimers := true, cancelingTimers := .empty }, r.2)

/-- One turn of the loop of `reset`. -/
def resetEntry (q : TimerQueue) (e : Entry) (now : Timestamp) : Except Fault TimerQueue := do
  let p := (ofLex e).2
  let timer ← q.deref p
  if timer.repeat_ ∧ toLex (p, timer.sequence) ∉ q.cancelingTimers then
    let r ← { q with heap := Function.update q.heap p (some (timer.restart now)) }.insert p
    .ok r.1
  else q.delete p

/-- The end of `reset`. -/
def rearm (q : TimerQueue) (clock : Clock) : Except Fault TimerQueue :=
  match q.timers.begin? with
  | none => .ok q
  | some e => do
    let timer ← q.deref (ofLex e).2
    if timer.expiration.valid then .ok (q.resetTimerfd timer.expiration clock) else .ok q

end TimerQueue

/-! ## The queue in its loop

The loop thread calls `addTimer` and `cancel` from event handlers and functors, and from the
callbacks `handleRead` runs. Other threads call `addTimer`: they create the timer and queue its
`addTimerInLoop`. `handleRead` is cut at every callback and at every turn of the loop of `reset`. -/

inductive TimerPhase where
  | idle
  /-- Between the callbacks of `handleRead`: `done` were started, the last one may still run. -/
  | calling (now : Timestamp) (done todo : List Entry)
  | resetting (now : Timestamp) (todo : List Entry)
  deriving DecidableEq

/-- The entries of `expired` that the code still has to use. -/
def TimerPhase.batch : TimerPhase → List Entry
  | .idle => []
  | .calling _ done todo => done ++ todo
  | .resetting _ todo => todo

/-- The entries of `expired` whose callback is not started. -/
def TimerPhase.waiting : TimerPhase → List Entry
  | .idle | .resetting _ _ => []
  | .calling _ _ todo => todo

inductive TimerEvent where
  /-- `cancelInLoop` has executed for the id of this timer. -/
  | cancelled (number : Nat)
  /-- The callback of this timer is started. -/
  | started (number : Nat)
  deriving DecidableEq

structure TimerLoop where
  queue : TimerQueue
  phase : TimerPhase
  /-- `Timer::s_numCreated_`, an `AtomicInt64`. -/
  numCreated : Int
  /-- How many timers there were. -/
  count : Nat
  /-- The arguments of the `addTimerInLoop` functors that are queued. -/
  pending : List Addr
  /-- The ids of the timers of this queue, each with the number of the timer. -/
  created : List (TimerId × Nat)
  /-- The numbers of the timers given to `addTimerInLoop`. -/
  given : List Nat
  log : List TimerEvent

inductive TimerOp where
  /-- A timer of another queue is created. -/
  | otherQueue
  /-- Another thread creates a timer at `p` and queues it. -/
  | create (p : Addr) (when_ : Timestamp) (repeat_ : Bool) (delta : Int)
  /-- The loop thread runs the first queued `addTimerInLoop`. -/
  | runFunctor (clock : Clock)
  /-- The loop thread creates a timer at `p` and adds it. -/
  | addTimer (p : Addr) (when_ : Timestamp) (repeat_ : Bool) (delta : Int) (clock : Clock)
  | cancel (id : TimerId)
  | handleRead (now readAt : Timestamp)
  | startCallback
  | endCallbacks
  | resetEntry
  | endReset (clock : Clock)

namespace TimerLoop

open TimerQueue

def init : TimerLoop := ⟨.init, .idle, 0, 0, [], [], [], []⟩

/-- `s_numCreated_.incrementAndGet()`. -/
def incrementAndGet (numCreated : Int) : Int := wrap64 (numCreated + 1)

/-- The constructor of `Timer`. -/
def fresh (s : TimerLoop) (when_ : Timestamp) (repeat_ : Bool) (delta : Int) : Timer where
  expiration := when_
  repeat_ := repeat_
  delta := delta
  sequence := incrementAndGet s.numCreated
  number := s.count + 1

/-- `new Timer(cb, when, interval)` at address `p`. -/
def newTimer (s : TimerLoop) (p : Addr) (when_ : Timestamp) (repeat_ : Bool) (delta : Int) :
    TimerLoop :=
  let timer := s.fresh when_ repeat_ delta
  { s with
    queue := { s.queue with heap := Function.update s.queue.heap p (some timer) }
    numCreated := incrementAndGet s.numCreated
    count := s.count + 1
    created := s.created ++ [((p, timer.sequence), timer.number)] }

/-- `addTimerInLoop(p)`. -/
def add (s : TimerLoop) (p : Addr) (clock : Clock) : Except Fault TimerLoop := do
  let timer ← s.queue.deref p
  let queue ← s.queue.addTimerInLoop p clock
  .ok { s with queue := queue, given := s.given ++ [timer.number] }

/-- The timers an id is the id of are cancelled. -/
def cancellations (s : TimerLoop) (id : TimerId) : List TimerEvent :=
  (s.created.filter (·.1 = id)).map fun c => .cancelled c.2

def exec (s : TimerLoop) : TimerOp → Except Fault TimerLoop
  | .otherQueue =>
    .ok { s with numCreated := incrementAndGet s.numCreated, count := s.count + 1 }
  | .create p when_ repeat_ delta =>
    .ok { s.newTimer p when_ repeat_ delta with pending := s.pending ++ [p] }
  | .runFunctor clock =>
    match s.pending with
    | p :: pending => { s with pending := pending }.add p clock
    | [] => .ok s
  | .addTimer p when_ repeat_ delta clock => (s.newTimer p when_ repeat_ delta).add p clock
  | .cancel id => do
    let queue ← s.queue.cancelInLoop id
    .ok { s with queue := queue, log := s.log ++ s.cancellations id }
  | .handleRead now readAt => do
    let r ← s.queue.beginHandleRead now readAt
    .ok { s with queue := r.1, phase := .calling now [] r.2 }
  | .startCallback =>
    match s.phase with
    | .calling now done (e :: todo) => do
      let timer ← s.queue.deref (ofLex e).2
      .ok { s with
        phase := .calling now (done ++ [e]) todo
        log := s.log ++ [.started timer.number] }
    | _ => .ok s
  | .endCallbacks =>
    match s.phase with
    | .calling now done _ =>
      .ok { s with
        queue := { s.queue with callingExpiredTimers := false }
        phase := .resetting now done }
    | _ => .ok s
  | .resetEntry =>
    match s.phase with
    | .resetting now (e :: todo) => do
      let queue ← s.queue.resetEntry e now
      .ok { s with queue := queue, phase := .resetting now todo }
    | _ => .ok s
  | .endReset clock => do
    let queue ← s.queue.rearm clock
    .ok { s with queue := queue, phase := .idle }

/-- User code of the loop thread can run: outside of `handleRead`, or in a callback of it. -/
def UserCode (s : TimerLoop) : Prop :=
  match s.phase with
  | .idle => True
  | .calling _ done _ => done ≠ []
  | .resetting _ _ => False

/-- The allocator returns an address that is not in use; a positive interval has a `delta` that is
not negative. -/
def Allocates (s : TimerLoop) (p : Addr) (repeat_ : Bool) (delta : Int) : Prop :=
  s.queue.heap p = none ∧ p < maxAddr ∧ (repeat_ = true → 0 ≤ delta)

def Enabled (s : TimerLoop) : TimerOp → Prop
  | .otherQueue => True
  | .create p _ repeat_ delta => s.Allocates p repeat_ delta
  | .runFunctor _ => s.phase = .idle ∧ s.pending ≠ []
  | .addTimer p _ repeat_ delta _ => s.UserCode ∧ s.Allocates p repeat_ delta
  | .cancel _ => s.UserCode
  | .handleRead _ _ => s.phase = .idle
  | .startCallback => ∃ now done e todo, s.phase = .calling now done (e :: todo)
  | .endCallbacks => ∃ now done, s.phase = .calling now done []
  | .resetEntry => ∃ now e todo, s.phase = .resetting now (e :: todo)
  | .endReset _ => ∃ now, s.phase = .resetting now []

instance (s : TimerLoop) : Decidable s.UserCode :=
  match h : s.phase with
  | .idle => isTrue (by simp [UserCode, h])
  | .calling _ done _ => decidable_of_iff (done ≠ []) (by simp [UserCode, h])
  | .resetting _ _ => isFalse (by simp [UserCode, h])

instance (s : TimerLoop) (p : Addr) (repeat_ : Bool) (delta : Int) :
    Decidable (s.Allocates p repeat_ delta) := inferInstanceAs (Decidable (_ ∧ _))

instance (s : TimerLoop) : (op : TimerOp) → Decidable (s.Enabled op)
  | .otherQueue => isTrue trivial
  | .create _ _ _ _ => inferInstanceAs (Decidable (s.Allocates ..))
  | .runFunctor _ | .addTimer _ _ _ _ _ => inferInstanceAs (Decidable (_ ∧ _))
  | .cancel _ => inferInstanceAs (Decidable s.UserCode)
  | .handleRead _ _ => inferInstanceAs (Decidable (s.phase = .idle))
  | .startCallback =>
    match h : s.phase with
    | .calling _ _ (_ :: _) => isTrue ⟨_, _, _, _, h⟩
    | .calling _ _ [] | .idle | .resetting _ _ => isFalse (by simp [Enabled, h])
  | .endCallbacks =>
    match h : s.phase with
    | .calling _ _ [] => isTrue ⟨_, _, h⟩
    | .calling _ _ (_ :: _) | .idle | .resetting _ _ => isFalse (by simp [Enabled, h])
  | .resetEntry =>
    match h : s.phase with
    | .resetting _ (_ :: _) => isTrue ⟨_, _, _, h⟩
    | .resetting _ [] | .idle | .calling _ _ _ => isFalse (by simp [Enabled, h])
  | .endReset _ =>
    match h : s.phase with
    | .resetting _ [] => isTrue ⟨_, h⟩
    | .resetting _ (_ :: _) | .idle | .calling _ _ _ => isFalse (by simp [Enabled, h])

end TimerLoop
end TinyMuduo

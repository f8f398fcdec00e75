import TinyMuduo.Lib.Ledger
import TinyMuduo.Lib.Outline

/-!
# Base.BlockingQueue

`BlockingQueue<T>`, instruction by instruction, with the code of `MutexLock` and `Condition` that it
runs (see `Base.CountDownLatch`).

`put` notifies with the mutex locked, and only one waiter; a taker that has just arrived may take
the element before the one that was notified, which then finds the queue empty and waits again.
`Free` says why nothing is lost: while a taker waits, there are as many takers on their way as there
are elements.
-/

namespace TinyMuduo

structure BlockingQueue (α : Type) where
  queue : List α
  /-- What was pushed and what was popped so far, in order. -/
  pushed : List α
  popped : List α

namespace BlockingQueue

open Monitor

variable {α : Type}

/-- Where a thread is. -/
inductive Pc (α : Type) where
  | outside
  -- `put(x)`
  | putLock (x : α)
  | putAssign (x : α)
  | putPush (x : α)
  | putNotify
  | putLeave
  | putUnlock
  -- `take()`
  | takeLock
  | takeAssign
  | takeTest
  | takeUnassign
  | takeCond
  | takeReassign
  | takeAssert
  | takeFront
  | takePop
  | takeLeave
  | takeUnlock
  -- `assert(!queue_.empty())` has failed
  | abort
  -- `size()`
  | sizeLock
  | sizeAssign
  | sizeRead
  | sizeLeave
  | sizeUnlock
  deriving DecidableEq

/-- What `take()` and `size()` are about to return. -/
structure Locals (α : Type) where
  front : Option α
  size : Nat
  deriving DecidableEq

/-- `queue_.push_back(x)` -/
def pushBack (q : BlockingQueue α) (x : α) : BlockingQueue α :=
  { q with queue := q.queue ++ [x], pushed := q.pushed ++ [x] }

/-- `queue_.pop_front()` -/
def popFront (q : BlockingQueue α) : BlockingQueue α :=
  { q with queue := q.queue.tail, popped := q.popped ++ q.queue.head?.toList }

def code : Pc α → Instr (BlockingQueue α) (Locals α) (Pc α) Unit
  | .outside => .idle
  | .putLock x => .lock (.putAssign x)
  | .putAssign x => .assign (.putPush x)
  | .putPush x => .act (fun q r => (q.pushBack x, r)) .putNotify
  | .putNotify => .notify () .putLeave
  | .putLeave => .unassign .putUnlock
  | .putUnlock => .unlock .outside
  | .takeLock => .lock .takeAssign
  | .takeAssign => .assign .takeTest
  | .takeTest => .test (fun q _ => q.queue.isEmpty) .takeUnassign .takeAssert
  | .takeUnassign => .unassign .takeCond
  | .takeCond => .wait () .takeReassign
  | .takeReassign => .assign .takeTest
  | .takeAssert => .test (fun q _ => q.queue.isEmpty) .abort .takeFront
  | .takeFront => .act (fun q r => (q, { r with front := q.queue.head? })) .takePop
  | .takePop => .act (fun q r => (q.popFront, r)) .takeLeave
  | .takeLeave => .unassign .takeUnlock
  | .takeUnlock => .unlock .outside
  | .abort => .act (fun q r => (q, r)) .abort
  | .sizeLock => .lock .sizeAssign
  | .sizeAssign => .assign .sizeRead
  | .sizeRead => .act (fun q r => (q, { r with size := q.queue.length })) .sizeLeave
  | .sizeLeave => .unassign .sizeUnlock
  | .sizeUnlock => .unlock .outside

def Pc.isEntry : Pc α → Bool
  | .putLock _ | .takeLock | .sizeLock => true
  | _ => false

def program (α : Type) : Program (BlockingQueue α) (Locals α) (Pc α) Unit where
  code := code
  entry p _ := p.isEntry

/-- An empty queue, and `n` threads that have not called it. -/
def init (α : Type) (n : Nat) : State (BlockingQueue α) (Locals α) (Pc α) Unit :=
  ⟨⟨[], [], []⟩, none, none, List.replicate n ⟨.running .outside, ⟨none, 0⟩⟩⟩

/-! ## The discipline -/

/-- The mutex is locked. -/
def Pc.held : Pc α → Bool
  | .outside | .putLock _ | .takeLock | .sizeLock => false
  | _ => true

/-- `holder_` is the thread. -/
def Pc.assigned : Pc α → Bool
  | .putPush _ | .putNotify | .putLeave | .takeTest | .takeUnassign | .takeAssert | .takeFront
  | .takePop | .takeLeave | .abort | .sizeRead | .sizeLeave => true
  | _ => false

def discipline (α : Type) : Discipline (program α) where
  held := Pc.held
  assigned := Pc.assigned
  respects p := by cases p <;> simp [Respects, program, code, Pc.held, Pc.assigned]
  entries p r h := by cases p <;> simp_all [program, Pc.isEntry, Pc.held, Pc.assigned]

/-! ## The outline -/

/-- A taker that has not popped, and does not go to sleep. -/
def Pc.takes : Pc α → Bool
  | .takeLock | .takeAssign | .takeTest | .takeReassign | .takeAssert | .takeFront | .takePop =>
    true
  | _ => false

/-- First in, first out; and nobody waits for an element that is there. -/
structure Free (q : BlockingQueue α) (x : Crowd Unit) : Prop where
  fifo : q.pushed = q.popped ++ q.queue
  served : 0 < x.waiting () → q.queue.length ≤ x.up ()

def assertion : Pc α → BlockingQueue α → Crowd Unit → Locals α → Prop
  -- one more is on its way after the notification
  | .putNotify, q, x, _ =>
    q.pushed = q.popped ++ q.queue ∧ (0 < x.waiting () → q.queue.length ≤ x.up () + 1)
  | .takeUnassign, q, x, _ | .takeCond, q, x, _ => Free q x ∧ q.queue = []
  | .takeAssert, q, x, _ | .takeFront, q, x, _ => Free q x ∧ q.queue ≠ []
  | .takePop, q, x, r => Free q x ∧ q.queue ≠ [] ∧ r.front = q.queue.head?
  | .takeLeave, q, x, r | .takeUnlock, q, x, r =>
    Free q x ∧ r.front.isSome = true ∧ q.popped.getLast? = r.front
  | .abort, _, _, _ => False
  | .sizeLeave, q, x, r | .sizeUnlock, q, x, r => Free q x ∧ r.size = q.queue.length
  | _, q, x, _ => Free q x

def outline (α : Type) : Outline (BlockingQueue α) (Locals α) (Pc α) Unit where
  counted _ := Pc.takes
  inv := Free
  assertion := assertion

variable {q : BlockingQueue α} {x x' : Crowd Unit} {p next : Pc α} {r : Locals α}

theorem Free.mono (h : Free q x) (hw : x'.waiting () ≤ x.waiting ()) (hu : x.up () ≤ x'.up ()) :
    Free q x' :=
  ⟨h.fifo, fun hpos => Nat.le_trans (h.served (Nat.lt_of_lt_of_le hpos hw)) hu⟩

/-- The thread goes on as a taker, or never was one. -/
theorem Free.moves (h : Free q x) (hm : x.Moves (fun _ => Pc.takes) p next x')
    (hp : p.takes = next.takes) : Free q x' := by
  obtain ⟨hw, hu⟩ := hm ()
  simp only [hp] at hu
  exact h.mono (Nat.le_of_eq hw) (by omega)

/-- With nothing in the queue anybody may go to sleep. -/
theorem Free.of_empty (h : Free q x) (hq : q.queue = []) (x' : Crowd Unit) : Free q x' :=
  ⟨h.fifo, fun _ => by simp [hq]⟩

theorem Free.queue_eq_nil (h : Free q x) (hup : x.up () = 0) (hpos : 0 < x.waiting ()) :
    q.queue = [] :=
  List.length_eq_zero_iff.1 (Nat.le_zero.1 (hup ▸ h.served hpos))

theorem assertion_calmer (p : Pc α) (h : assertion p q x r) (hx : x.Calmer x') :
    assertion p q x' r := by
  obtain ⟨hw, hu⟩ := hx ()
  cases p with
  | putNotify => exact ⟨h.1, fun hpos => Nat.le_trans (h.2 (Nat.lt_of_lt_of_le hpos hw)) (by omega)⟩
  | takeUnassign | takeCond | takeAssert | takeFront | takePop | takeLeave | takeUnlock | sizeLeave
  | sizeUnlock => exact ⟨h.1.mono hw hu, h.2⟩
  | abort => exact h
  | _ => exact Free.mono h hw hu

theorem fifo_pushBack (h : q.pushed = q.popped ++ q.queue) (a : α) :
    (q.pushBack a).pushed = (q.pushBack a).popped ++ (q.pushBack a).queue := by
  simp [pushBack, h]

theorem fifo_popFront (h : q.pushed = q.popped ++ q.queue) :
    q.popFront.pushed = q.popFront.popped ++ q.popFront.queue := by
  cases hq : q.queue <;> simp [popFront, h, hq]

theorem valid (α : Type) : (outline α).Valid (discipline α) where
  inv_calmer q x x' h hx := h.mono (hx ()).1 (hx ()).2
  assertion_calmer p q x x' r h hx := assertion_calmer p h hx
  condition p := by
    cases p with
    | outside => exact fun _ => rfl
    | putLock a | sizeLock | takeLock => exact fun q r x x' h hm => h.moves hm rfl
    | putAssign a | sizeAssign | takeAssign | takeReassign =>
      exact fun q r x x' h hm => Free.moves h hm rfl
    | putPush a =>
      intro q r x x' h hm
      refine ⟨fifo_pushBack (Free.fifo h) a, fun hpos => ?_⟩
      obtain ⟨hw, hu⟩ := hm ()
      have hserved := Free.served h (hw ▸ hpos)
      simp only [pushBack, List.length_append, List.length_singleton]
      simp only [outline, Pc.takes, Bool.toNat_false] at hu
      omega
    | putNotify =>
      intro q r x x' x'' h hm hn
      refine ⟨h.1, fun hpos => ?_⟩
      obtain ⟨hw, hu⟩ := hm ()
      simp only [outline, Pc.takes, Bool.toNat_false, Nat.add_zero] at hu
      rcases hn.2 with ⟨-, h0, -⟩ | ⟨hw', hu'⟩
      · omega
      · have := h.2 (by omega)
        omega
    | putLeave | putUnlock => exact fun q r x x' h hm => Free.moves h hm rfl
    | takeTest =>
      refine fun q r x x' h => ⟨fun hq hm => ?_, fun hq hm => ?_⟩
      · have hempty : q.queue = [] := List.isEmpty_iff.1 hq
        exact ⟨Free.of_empty h hempty x', hempty⟩
      · exact ⟨Free.moves h hm rfl, List.isEmpty_eq_false_iff.1 hq⟩
    | takeUnassign => exact fun q r x x' h hm => ⟨h.1.of_empty h.2 x', h.2⟩
    | takeCond =>
      refine ⟨fun q r x x' h _ => h.1.of_empty h.2 x', fun q r x x' h hm => ?_⟩
      obtain ⟨hw, hu⟩ := hm ()
      simp only [outline, Pc.takes, Bool.toNat_true, if_true] at hu
      exact Free.mono h (Nat.le_of_eq hw) (by omega)
    | takeAssert =>
      refine fun q r x x' h => ⟨fun hq _ => ?_, fun _ hm => ?_⟩
      · exact h.2 (List.isEmpty_iff.1 hq)
      · exact ⟨h.1.moves hm rfl, h.2⟩
    | takeFront => exact fun q r x x' h hm => ⟨h.1.moves hm rfl, h.2, rfl⟩
    | takePop =>
      rintro q r x x' ⟨h, hne, hfront⟩ hm
      obtain ⟨a, l, hq⟩ := List.exists_cons_of_ne_nil hne
      rw [hq] at hfront
      refine ⟨⟨fifo_popFront h.fifo, fun hpos => ?_⟩, ?_, ?_⟩
      · obtain ⟨hw, hu⟩ := hm ()
        have hserved := h.served (hw ▸ hpos)
        simp only [outline, Pc.takes, Bool.toNat_true, Bool.toNat_false] at hu
        simp only [popFront, hq, List.tail_cons]
        rw [hq, List.length_cons] at hserved
        omega
      · simp [hfront]
      · simp [popFront, hq, hfront]
    | takeLeave => exact fun q r x x' h hm => ⟨h.1.moves hm rfl, h.2⟩
    | takeUnlock => exact fun q r x x' h hm => h.1.moves hm rfl
    | abort => exact fun q r x x' h => h.elim
    | sizeRead => exact fun q r x x' h hm => ⟨Free.moves h hm rfl, rfl⟩
    | sizeLeave => exact fun q r x x' h hm => ⟨h.1.moves hm rfl, h.2⟩
    | sizeUnlock => exact fun q r x x' h hm => h.1.moves hm rfl

theorem init_holds (α : Type) (n : Nat) : (outline α).Holds (discipline α) (init α n) := by
  have hidle : ∀ t ∈ (init α n).threads, t.isIdle (program α) = true := by
    intro t ht
    rw [List.eq_of_mem_replicate ht]
    rfl
  exact .of_free (.of_idle _ rfl rfl hidle) rfl ⟨rfl, fun _ => Nat.zero_le _⟩

theorem run_holds {n : Nat} {ops : List (Op (Locals α) (Pc α))}
    {s : State (BlockingQueue α) (Locals α) (Pc α) Unit}
    (hr : (machine (program α)).Run (init α n) ops s) : (outline α).Holds (discipline α) s :=
  hr.keeps (valid α).keeps (init_holds α n)

theorem assertion_fifo (p : Pc α) (h : assertion p q x r) : q.pushed = q.popped ++ q.queue := by
  cases p with
  | putNotify => exact h.1
  | takeUnassign | takeCond | takeAssert | takeFront | takePop | takeLeave | takeUnlock | sizeLeave
  | sizeUnlock => exact h.1.fifo
  | abort => exact h.elim
  | _ => exact Free.fifo h

/-! ## What the calls ask for -/

/-- The argument of a `put` that has not pushed it yet. -/
def Pc.toPush : Pc α → Option α
  | .putLock x | .putAssign x | .putPush x => some x
  | _ => none

/-- `take()` has not popped yet. -/
def Pc.toPop : Pc α → Bool
  | .takeLock | .takeAssign | .takeTest | .takeUnassign | .takeCond | .takeReassign | .takeAssert
  | .takeFront | .takePop | .abort => true
  | _ => false

/-- The place at which a call starts. -/
def callPc : Op (Locals α) (Pc α) → Pc α
  | .call _ p _ => p
  | .step _ _ | .wake _ => .outside

/-- The arguments of the calls of `put`. -/
def putCalls (ops : List (Op (Locals α) (Pc α))) : List α :=
  ops.filterMap fun op => (callPc op).toPush

def takeCalls (ops : List (Op (Locals α) (Pc α))) : Nat := ops.countP fun op => (callPc op).toPop

/-- What the threads in `put` have not pushed yet. -/
def putting (s : State (BlockingQueue α) (Locals α) (Pc α) Unit) : List α :=
  s.threads.filterMap fun t => t.spot.toPush

/-- The threads in `take()` that have not popped yet. -/
def taking (s : State (BlockingQueue α) (Locals α) (Pc α) Unit) : Nat :=
  s.threads.countP fun t => t.spot.toPop

def putLedger (α : Type) : Ledger (BlockingQueue α) (Pc α) (Multiset α) where
  entered q := q.pushed
  owes p := p.toPush.toList

def takeLedger (α : Type) : Ledger (BlockingQueue α) (Pc α) Nat where
  entered q := q.popped.length
  owes p := p.toPop.toNat

theorem putLedger_balances (q : BlockingQueue α) (r : Locals α) (p : Pc α) :
    (putLedger α).Balances q r p (code p) := by
  cases p with
  | putPush x => exact (add_zero _).trans (Multiset.coe_add q.pushed [x]).symm
  | takeTest | takeAssert => exact ⟨rfl, rfl⟩
  | _ => rfl

theorem takeLedger_balances (h : p = .takePop → q.queue ≠ []) :
    (takeLedger α).Balances q r p (code p) := by
  cases p with
  | takePop =>
    obtain ⟨a, l, hq⟩ := List.exists_cons_of_ne_nil (h rfl)
    simp [takeLedger, Ledger.Balances, code, popFront, hq, Pc.toPop]
  | takeTest | takeAssert => exact ⟨rfl, rfl⟩
  | _ => rfl

/-- What was pushed, with what is still to be pushed, is what `put` was called with. -/
theorem run_pushed {n : Nat} {ops : List (Op (Locals α) (Pc α))}
    {s : State (BlockingQueue α) (Locals α) (Pc α) Unit}
    (hr : (machine (program α)).Run (init α n) ops s) :
    (s.shared.pushed ++ putting s).Perm (putCalls ops) := by
  have htotal := (putLedger α).run_total (I := fun _ => True) (fun _ _ _ _ _ _ => trivial)
    (fun s _ i p r _ => putLedger_balances s.shared r p) hr trivial
  have hclaimed : (putLedger α).claimed = fun op => ((callPc op).toPush.toList : Multiset α) := by
    funext op
    cases op <;> rfl
  have hinit : (putLedger α).total (init α n) = 0 := by
    simp [Ledger.total, Ledger.owed, putLedger, init, Thread.spot, Pc.toPush]
  rw [hinit, zero_add, hclaimed, List.sum_map_toList, Ledger.total, Ledger.owed,
    List.map_map] at htotal
  rw [← Multiset.coe_eq_coe, ← Multiset.coe_add, putting, ← List.sum_map_toList]
  exact htotal

theorem run_popped {n : Nat} {ops : List (Op (Locals α) (Pc α))}
    {s : State (BlockingQueue α) (Locals α) (Pc α) Unit}
    (hr : (machine (program α)).Run (init α n) ops s) :
    s.shared.popped.length + taking s = takeCalls ops := by
  have hbal : ∀ s, (outline α).Holds (discipline α) s → ∀ (i : Nat) p r,
      s.threads[i]? = some ⟨.running p, r⟩ → (takeLedger α).Balances s.shared r p (code p) := by
    refine fun s h i p r ht => takeLedger_balances fun hp => ?_
    subst hp
    exact (h.assertion i _ r ((h.owned.owner_iff ht).2 rfl) ht).2.1
  have htotal := (takeLedger α).run_total (valid α).keeps hbal hr (init_holds α n)
  have hclaimed : (takeLedger α).claimed = fun op => (callPc op).toPop.toNat := by
    funext op
    cases op <;> rfl
  have hinit : (takeLedger α).total (init α n) = 0 := by
    simp [Ledger.total, Ledger.owed, takeLedger, init, Thread.spot, Pc.toPop]
  rw [hinit, Nat.zero_add, hclaimed, List.sum_map_toNat, Ledger.total, Ledger.owed,
    List.map_map] at htotal
  rw [taking, takeCalls, ← htotal, ← List.sum_map_toNat]
  rfl

/-- **The queue.** In every run of any number of threads: elements are popped in the order in which
they were pushed; `take()` returns the element it has popped and its assertion never fails; `size()`
returns the number of elements. What was pushed, and what the threads in `put` have still to push,
are the arguments with which `put` was called, and each `take()` pops once. When no thread can go
on, each is outside, or waits in `take()` and the queue is empty: no wakeup is lost. -/
theorem blocking_queue_run {n : Nat} {ops : List (Op (Locals α) (Pc α))}
    {s : State (BlockingQueue α) (Locals α) (Pc α) Unit}
    (hr : (machine (program α)).Run (init α n) ops s) :
    s.shared.pushed = s.shared.popped ++ s.shared.queue ∧
    (s.shared.pushed ++ putting s).Perm (putCalls ops) ∧
    s.shared.popped.length + taking s = takeCalls ops ∧
    (∀ (i : Nat) r, s.threads[i]? = some ⟨.running .takeLeave, r⟩ →
      r.front.isSome = true ∧ s.shared.popped.getLast? = r.front) ∧
    (∀ (i : Nat) r, s.threads[i]? ≠ some ⟨.running .abort, r⟩) ∧
    (∀ (i : Nat) r, s.threads[i]? = some ⟨.running .sizeLeave, r⟩ →
      r.size = s.shared.queue.length) ∧
    ((∀ i woken, ¬ Enabled (program α) s (.step i woken)) →
      ∀ t ∈ s.threads, t.isIdle (program α) = true ∨
        t.isWaiting = true ∧ s.shared.queue = []) ∧
    ∀ op, Enabled (program α) s op → ∃ s', exec (program α) s op = .ok s' := by
  have h := run_holds hr
  have hinside : ∀ {i : Nat} {p r}, s.threads[i]? = some ⟨.running p, r⟩ → p.held = true →
      assertion p s.shared (crowd (outline α).counted s.threads) r := fun ht hheld =>
    h.assertion _ _ _ ((h.owned.owner_iff ht).2 hheld) ht
  refine ⟨?_, run_pushed hr, run_popped hr, fun i r ht => (hinside ht rfl).2,
    fun i r ht => hinside ht rfl, fun i r ht => (hinside ht rfl).2, fun hstuck t ht => ?_,
    fun op he => ?_⟩
  · exact h.always (fun _ _ hfree => hfree.fifo) fun p _ _ _ ha => assertion_fifo p ha
  · obtain ⟨x, hfree, hup, hall⟩ := h.stuck (valid α) hstuck
    rcases hall t ht with hidle | ⟨hwaiting, _, hpos⟩
    · exact .inl hidle
    · exact .inr ⟨hwaiting, hfree.queue_eq_nil (hup ()) hpos⟩
  · obtain ⟨s', hx, -⟩ := Owned.safe (discipline α) s op h.owned he
    exact ⟨s', hx⟩

/-- A taker waits and is notified, and another one takes the element before it. -/
def overtake : List (Op (Locals Nat) (Pc Nat)) :=
  [.call 0 .takeLock ⟨none, 0⟩, .step 0 none, .step 0 none, .step 0 none, .step 0 none,
    .step 0 none,
    .call 1 (.putLock 7) ⟨none, 0⟩, .step 1 none, .step 1 none, .step 1 none, .step 1 (some 0),
    .step 1 none, .step 1 none,
    .call 2 .takeLock ⟨none, 0⟩, .step 2 none, .step 2 none, .step 2 none, .step 2 none,
    .step 2 none, .step 2 none]

def overtaken : State (BlockingQueue Nat) (Locals Nat) (Pc Nat) Unit :=
  ⟨⟨[], [7], [7]⟩, some 2, some 2, [⟨.woken () .takeReassign, ⟨none, 0⟩⟩,
    ⟨.running .outside, ⟨none, 0⟩⟩, ⟨.running .takeLeave, ⟨some 7, 0⟩⟩]⟩

theorem run_overtake : (machine (program Nat)).Run (init Nat 3) overtake overtaken :=
  .of_replay_eq rfl

/-- The one that was notified waits again. -/
def sleep : List (Op (Locals Nat) (Pc Nat)) :=
  [.step 2 none, .step 2 none, .step 0 none, .step 0 none, .step 0 none, .step 0 none, .step 0 none]

theorem blocking_queue_run_overtaken :
    (machine (program Nat)).Run (init Nat 3) overtake overtaken ∧
    overtaken.shared.pushed = overtaken.shared.popped ++ overtaken.shared.queue ∧
    overtaken.shared.popped.getLast? = some 7 := by
  have h := blocking_queue_run run_overtake
  exact ⟨run_overtake, h.1, (h.2.2.2.1 2 ⟨some 7, 0⟩ rfl).2⟩

/-! ## Takers are served -/

/-- How many steps a thread has to make. Eight steps of `notify` are those of the taker it wakes. -/
def Pc.steps : Pc α → Nat
  | .outside | .abort => 0
  | .putUnlock | .takeUnlock | .takeCond | .sizeUnlock => 1
  | .putLeave | .takeLeave | .takeUnassign | .sizeLeave => 2
  | .takePop | .sizeRead => 3
  | .takeFront | .sizeAssign => 4
  | .takeAssert | .sizeLock => 5
  | .takeTest => 6
  | .takeAssign | .takeReassign => 7
  | .takeLock => 8
  | .putNotify => 11
  | .putPush _ => 12
  | .putAssign _ => 13
  | .putLock _ => 14

def steps (t : Thread (Locals α) (Pc α) Unit) : Nat :=
  match t.place with
  | .running p => p.steps
  | .woken _ _ => 8
  | .waiting _ _ => 0

theorem steps_le (t : Thread (Locals α) (Pc α) Unit) : steps t ≤ 14 := by
  obtain ⟨place, r⟩ := t
  cases place with
  | running p => cases p <;> simp [steps, Pc.steps]
  | waiting c next => exact Nat.zero_le 14
  | woken c next => exact Nat.le_add_right 8 6

theorem steps_lt {s s' : State (BlockingQueue α) (Locals α) (Pc α) Unit} {op : Op (Locals α) (Pc α)}
    (h : (outline α).Holds (discipline α) s) (hop : op.isStep = true)
    (he : Enabled (program α) s op) (hx : exec (program α) s op = .ok s') :
    (s'.threads.map steps).sum < (s.threads.map steps).sum := by
  have hcall : op.isCall = false := by
    cases op with
    | step i woken => rfl
    | call i p r | wake i => cases hop
  refine exec_sum_lt (m := 8) hcall he hx (fun i p r ht hc => ?_) (fun c next r ht => ?_)
    (fun _ _ _ => Nat.le_refl 8) (fun i hi => ?_) (.inr fun p k next hp => by cases p <;> cases hp)
  · cases p with
    | outside => exact absurd rfl hc
    | abort => exact (h.assertion i _ r ((h.owned.owner_iff ht).2 rfl) ht).elim
    | takeTest | takeAssert =>
      simp only [land, program, code, Thread.goto, steps, Instr.gift]
      split <;> simp [Pc.steps]
    | _ => simp [land, program, code, Thread.goto, steps, Instr.gift, Pc.steps]
  · obtain ⟨p, hp⟩ : ∃ p, code p = .wait c next := h.owned.resumes _ ht
    have hnext : next = .takeReassign := by
      cases p <;> cases hp
      rfl
    subst hnext
    exact Nat.lt_succ_self 7
  · subst hi
    cases hop

/-- **Takers are served.** From any reachable state, without new calls and without spurious wakeups,
every run ends after at most fourteen steps for each thread. At its end every `put()` and `size()`
has returned, and every `take()` too, unless the queue is empty. -/
theorem blocking_queue_serves {n : Nat} {ops ops' : List (Op (Locals α) (Pc α))}
    {s s' : State (BlockingQueue α) (Locals α) (Pc α) Unit}
    (hr : (machine (program α)).Run (init α n) ops s)
    (hr' : ((machine (program α)).under fun _ op => op.isStep = true).Run s ops' s') :
    ops'.length ≤ 14 * s.threads.length ∧
    ((∀ i woken, ¬ Enabled (program α) s' (.step i woken)) → s'.shared.queue ≠ [] →
      ∀ t ∈ s'.threads, t.isIdle (program α) = true) := by
  have h := run_holds hr
  have hkeeps : ((machine (program α)).under fun _ op => op.isStep = true).Keeps
      ((outline α).Holds (discipline α)) :=
    fun s op s' hs he hx => (valid α).keeps s op s' hs he.1 hx
  refine ⟨?_, fun hstuck hne t ht => ?_⟩
  · have hlen : ops'.length + (s'.threads.map steps).sum ≤ (s.threads.map steps).sum :=
      hr'.length_add_rank_le hkeeps (fun s op s' hs he hx => steps_lt hs he.2 he.1 hx) h
    have hsum := List.sum_map_le fun t (_ : t ∈ s.threads) => steps_le t
    omega
  · obtain ⟨x, hfree, hup, hall⟩ := (hr'.keeps hkeeps h).stuck (valid α) hstuck
    rcases hall t ht with hidle | ⟨-, _, hpos⟩
    · exact hidle
    · exact absurd (hfree.queue_eq_nil (hup ()) hpos) hne

theorem blocking_queue_serves_overtaken : ∃ s',
    ((machine (program Nat)).under fun _ op => op.isStep = true).Run overtaken sleep s' ∧
    s'.threads.map Thread.place =
      [.waiting () .takeReassign, .running .outside, .running .outside] ∧
    sleep.length ≤ 14 * 3 := by
  obtain ⟨s', hr, hplaces⟩ := Machine.Run.of_replay
    ((machine (program Nat)).under fun _ op => op.isStep = true) overtaken sleep
    (fun s => s.threads.map Thread.place)
    [.waiting () .takeReassign, .running .outside, .running .outside] rfl
  exact ⟨s', hr, hplaces, (blocking_queue_serves run_overtake hr).1⟩

end BlockingQueue
end TinyMuduo

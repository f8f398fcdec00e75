import TinyMuduo.Lib.Ledger
import TinyMuduo.Lib.Outline
import TinyMuduo.Lib.Signed

/-!
# Base.CountDownLatch

`CountDownLatch`, with the code of `MutexLock` and `Condition` that it runs.

Each place of a thread is one access to shared data or one call of pthreads: `lock()` is
`pthread_mutex_lock` and then `assignHolder()`, `unlock()` is `unassignHolder()` and then
`pthread_mutex_unlock`, and `Condition::wait()` has an `UnassignGuard` around `pthread_cond_wait`.
`--count_` is a load and a store of an `int`, which wraps around; the results are about runs in
which the calls of `countDown()` do not take it out of its range.

`holder_` is the field of the mutex in `Lib.Monitor`, and what `isLockedByThisThread()` compares
with the caller.
-/

namespace TinyMuduo

structure CountDownLatch where
  /-- An `int`. -/
  count : Int
  /-- How often `count_` was stored. -/
  downs : Nat
  deriving DecidableEq, Repr

namespace CountDownLatch

open Monitor

/-- Where a thread is. -/
inductive Pc where
  | outside
  -- `wait()`
  | waitLock
  | waitAssign
  | waitTest
  | waitUnassign
  | waitCond
  | waitReassign
  | waitLeave
  | waitUnlock
  -- `countDown()`
  | downLock
  | downAssign
  | downLoad
  | downStore
  | downTest
  | downNotifyAll
  | downLeave
  | downUnlock
  -- `getCount()`
  | getLock
  | getAssign
  | getLoad
  | getLeave
  | getUnlock
  deriving DecidableEq, Repr

/-- The latch has one condition variable; a thread has one register. -/
abbrev Code := Instr CountDownLatch Int Pc Unit

def code : Pc → Code
  | .outside => .idle
  | .waitLock => .lock .waitAssign
  | .waitAssign => .assign .waitTest
  | .waitTest => .test (fun s _ => decide (0 < s.count)) .waitUnassign .waitLeave
  | .waitUnassign => .unassign .waitCond
  | .waitCond => .wait () .waitReassign
  | .waitReassign => .assign .waitTest
  | .waitLeave => .unassign .waitUnlock
  | .waitUnlock => .unlock .outside
  | .downLock => .lock .downAssign
  | .downAssign => .assign .downLoad
  | .downLoad => .act (fun s _ => (s, s.count)) .downStore
  | .downStore =>
    .act (fun s r => ({ s with count := wrap32 (r - 1), downs := s.downs + 1 }, r)) .downTest
  | .downTest => .test (fun s _ => decide (s.count = 0)) .downNotifyAll .downLeave
  | .downNotifyAll => .notifyAll () .downLeave
  | .downLeave => .unassign .downUnlock
  | .downUnlock => .unlock .outside
  | .getLock => .lock .getAssign
  | .getAssign => .assign .getLoad
  | .getLoad => .act (fun s _ => (s, s.count)) .getLeave
  | .getLeave => .unassign .getUnlock
  | .getUnlock => .unlock .outside

def program : Program CountDownLatch Int Pc Unit where
  code := code
  entry p _ := p ∈ [.waitLock, .downLock, .getLock]

/-- A new latch, and `n` threads that have not called it. -/
def init (count : Int) (n : Nat) : State CountDownLatch Int Pc Unit :=
  ⟨⟨count, 0⟩, none, none, List.replicate n ⟨.running .outside, 0⟩⟩

/-! ## The discipline -/

/-- The mutex is locked. -/
def Pc.held : Pc → Bool
  | .outside | .waitLock | .downLock | .getLock => false
  | _ => true

/-- `holder_` is the thread. -/
def Pc.assigned : Pc → Bool
  | .waitTest | .waitUnassign | .waitLeave | .downLoad | .downStore | .downTest | .downNotifyAll
  | .downLeave | .getLoad | .getLeave => true
  | _ => false

def discipline : Discipline program where
  held := Pc.held
  assigned := Pc.assigned
  respects p := by cases p <;> simp [Respects, program, code, Pc.held, Pc.assigned]
  entries p r h := by cases p <;> simp_all [program, Pc.held, Pc.assigned]

/-! ## The calls of `countDown()` -/

/-- `countDown()` has not stored yet. -/
def Pc.stores : Pc → Bool
  | .downLock | .downAssign | .downLoad | .downStore => true
  | _ => false

/-- A call of `countDown()`. -/
def isDown : Op Int Pc → Bool
  | .call _ .downLock _ => true
  | _ => false

def downCalls (ops : List (Op Int Pc)) : Nat := ops.countP isDown

/-- The threads in a `countDown()` that has not stored yet. -/
def storing (s : State CountDownLatch Int Pc Unit) : Nat := s.threads.countP (·.spot.stores)

/-- The calls do not take `count_` out of the range of an `int`. -/
def InRange (count : Int) (ops : List (Op Int Pc)) : Prop :=
  Fits 32 count ∧ Fits 32 (count - downCalls ops)

def ledger : Ledger CountDownLatch Pc Nat where
  entered := downs
  owes p := p.stores.toNat

theorem ledger_balances (s : CountDownLatch) (r : Int) (p : Pc) :
    ledger.Balances s r p (code p) := by
  cases p <;> simp [Ledger.Balances, code, ledger, Pc.stores]

theorem ledger_total (s : State CountDownLatch Int Pc Unit) :
    ledger.total s = s.shared.downs + storing s := by
  rw [Ledger.total, Ledger.owed, List.map_map]
  exact congrArg _ (List.sum_map_toNat _ _)

theorem claimed_eq {s : State CountDownLatch Int Pc Unit} {op : Op Int Pc}
    (he : Enabled program s op) : ledger.claimed op = (isDown op).toNat := by
  cases op with
  | call i p r =>
    have hentry : p = .waitLock ∨ p = .downLock ∨ p = .getLock := by simpa [program] using he.1
    rcases hentry with rfl | rfl | rfl <;> rfl
  | step i woken | wake i => rfl

/-- Each call of `countDown()` stores once. -/
theorem run_downs {s s' : State CountDownLatch Int Pc Unit} {ops : List (Op Int Pc)}
    (hr : (machine program).Run s ops s') :
    s'.shared.downs + storing s' = s.shared.downs + storing s + downCalls ops := by
  induction hr with
  | nil => rfl
  | cons he hx _ ih =>
    have hstep := ledger.exec_total he hx fun i p r _ => ledger_balances _ r p
    rw [ledger_total, ledger_total, claimed_eq he] at hstep
    rw [ih, hstep, downCalls, downCalls, List.countP_cons]
    cases isDown _ <;> simp [Nat.add_assoc, Nat.add_comm]

/-- No store is undone. -/
theorem run_downs_le {s s' : State CountDownLatch Int Pc Unit} {ops : List (Op Int Pc)}
    (hr : (machine program).Run s ops s') : s.shared.downs ≤ s'.shared.downs := by
  induction hr with
  | nil => exact Nat.le_refl _
  | cons _ hx _ ih =>
    refine Nat.le_trans ?_ ih
    rcases exec_shared hx with heq | ⟨i, p, r, -, heq⟩
    · rw [heq]
    · rw [heq]
      cases p with
      | downStore => exact Nat.le_succ _
      | _ => exact Nat.le_refl _

/-! ## The outline -/

/-- What holds when the mutex is free: no `countDown` is lost, and nobody waits for nothing. -/
def Free (n : Int) (s : CountDownLatch) (x : Crowd Unit) : Prop :=
  s.count = wrap32 (n - s.downs) ∧ (s.count ≤ 0 → x.waiting () = 0)

def assertion (n : Int) : Pc → CountDownLatch → Crowd Unit → Int → Prop
  | .waitUnassign, s, x, _ | .waitCond, s, x, _ => Free n s x ∧ 0 < s.count
  | .waitLeave, s, x, _ | .waitUnlock, s, x, _ => Free n s x ∧ s.count ≤ 0
  | .downStore, s, x, r => Free n s x ∧ r = s.count
  -- whoever waits when the last store is made waits for the notification
  | .downTest, s, x, _ => s.count = wrap32 (n - s.downs) ∧ (s.count < 0 → x.waiting () = 0)
  | .downNotifyAll, s, _, _ => s.count = wrap32 (n - s.downs) ∧ s.count = 0
  | _, s, x, _ => Free n s x

def outline (n : Int) : Outline CountDownLatch Int Pc Unit where
  counted _ _ := false
  inv := Free n
  assertion := assertion n

theorem wrap32_pred (n : Int) (k : Nat) :
    wrap32 (wrap32 (n - k) - 1) = wrap32 (n - (k + 1 : Nat)) := by
  rw [wrap32, wrap32, wrap32, Int.sub_eq_add_neg, Int.bmod_add_bmod]
  congr 1
  omega

/-- One less is negative only below 1. -/
theorem le_zero_of_wrap32_pred {n x : Int} (hx : x = wrap32 n) (h : wrap32 (x - 1) < 0) :
    x ≤ 0 := by
  have hlt : n.bmod (2 ^ 32) < ((2 ^ 32 : Nat) + 1) / 2 := Int.bmod_lt (by decide)
  rw [wrap32] at hx h
  by_contra hpos
  rw [Int.bmod_eq_of_le (by omega) (by omega)] at h
  omega

theorem Free.calmer {n : Int} {s : CountDownLatch} {x x' : Crowd Unit} (h : Free n s x)
    (hw : x'.waiting () ≤ x.waiting ()) : Free n s x' :=
  ⟨h.1, fun hc => Nat.le_zero.1 (h.2 hc ▸ hw)⟩

theorem assertion_calmer {n : Int} (p : Pc) {s : CountDownLatch} {x x' : Crowd Unit} {r : Int}
    (h : assertion n p s x r) (hw : x'.waiting () ≤ x.waiting ()) : assertion n p s x' r := by
  cases p with
  | waitUnassign | waitCond | waitLeave | waitUnlock | downStore => exact ⟨h.1.calmer hw, h.2⟩
  | downTest => exact ⟨h.1, fun hc => Nat.le_zero.1 (h.2 hc ▸ hw)⟩
  | downNotifyAll => exact h
  | _ => exact Free.calmer h hw

theorem valid (n : Int) : (outline n).Valid discipline where
  inv_calmer s x x' h hx := h.calmer (hx ()).1
  assertion_calmer p s x x' r h hx := assertion_calmer p h (hx ()).1
  condition p := by
    cases p with
    | outside => exact fun _ => rfl
    | waitLock | downLock | getLock => exact fun s r x x' h hm => h.calmer (Nat.le_of_eq (hm ()).1)
    | waitAssign | waitReassign | downAssign | getAssign =>
      exact fun s r x x' h hm => Free.calmer h (Nat.le_of_eq (hm ()).1)
    | waitTest =>
      refine fun s r x x' h => ⟨fun hq hm => ?_, fun hq hm => ?_⟩
      · exact ⟨Free.calmer h (Nat.le_of_eq (hm ()).1), of_decide_eq_true hq⟩
      · exact ⟨Free.calmer h (Nat.le_of_eq (hm ()).1), Int.not_lt.1 (of_decide_eq_false hq)⟩
    | waitUnassign => exact fun s r x x' h hm => ⟨h.1.calmer (Nat.le_of_eq (hm ()).1), h.2⟩
    | waitCond =>
      refine ⟨fun s r x x' h hs => ⟨h.1.1, fun hc => ?_⟩, fun s r x x' h hm => ?_⟩
      · exact absurd h.2 (Int.not_lt.2 hc)
      · exact Free.calmer h (Nat.le_of_eq (hm ()).1)
    | waitLeave => exact fun s r x x' h hm => ⟨h.1.calmer (Nat.le_of_eq (hm ()).1), h.2⟩
    | waitUnlock => exact fun s r x x' h hm => h.1.calmer (Nat.le_of_eq (hm ()).1)
    | downLoad => exact fun s r x x' h hm => ⟨Free.calmer h (Nat.le_of_eq (hm ()).1), rfl⟩
    | downStore =>
      rintro s r x x' ⟨h, rfl⟩ hm
      refine ⟨?_, fun hc => ?_⟩
      · show wrap32 (s.count - 1) = _
        rw [h.1, wrap32_pred]
      · rw [(hm ()).1]
        exact h.2 (le_zero_of_wrap32_pred h.1 hc)
    | downTest =>
      refine fun s r x x' h => ⟨fun hq hm => ?_, fun hq hm => ⟨h.1, fun hc => ?_⟩⟩
      · exact ⟨h.1, of_decide_eq_true hq⟩
      · have hne : s.count ≠ 0 := of_decide_eq_false hq
        rw [(hm ()).1]
        exact h.2 (by omega)
    | downNotifyAll => exact fun s r x x' x'' h hm hn => ⟨h.1, fun _ => hn.2.1⟩
    | downLeave | downUnlock | getLeave | getUnlock =>
      exact fun s r x x' h hm => Free.calmer h (Nat.le_of_eq (hm ()).1)
    | getLoad => exact fun s r x x' h hm => Free.calmer h (Nat.le_of_eq (hm ()).1)

theorem init_holds {count : Int} (hfits : Fits 32 count) (n : Nat) :
    (outline count).Holds discipline (init count n) := by
  refine .of_free (.of_idle discipline rfl rfl fun t ht => ?_) rfl ⟨?_, fun _ => ?_⟩
  · rw [List.eq_of_mem_replicate ht]
    rfl
  · simp [init, wrap32_of_fits hfits]
  · exact CondVar.waiting_replicate _ (fun h => by cases h) n

section

variable {count : Int} {n : Nat} {ops : List (Op Int Pc)} {s : State CountDownLatch Int Pc Unit}

theorem run_holds (hr : (machine program).Run (init count n) ops s) (hfits : Fits 32 count) :
    (outline count).Holds discipline s :=
  hr.keeps (valid count).keeps (init_holds hfits n)

theorem assertion_count (p : Pc) {s : CountDownLatch} {x : Crowd Unit} {r : Int}
    (h : assertion count p s x r) : s.count = wrap32 (count - s.downs) := by
  cases p with
  | waitUnassign | waitCond | waitLeave | waitUnlock | downStore => exact h.1.1
  | _ => exact h.1

theorem downs_eq (hr : (machine program).Run (init count n) ops s) :
    s.shared.downs + storing s = downCalls ops := by
  have hinit : storing (init count n) = 0 := by
    refine List.countP_eq_zero.2 fun t ht => ?_
    rw [List.eq_of_mem_replicate ht]
    simp [Thread.spot, Pc.stores]
  have hdowns := run_downs hr
  rw [hinit] at hdowns
  simpa [init] using hdowns

/-- Within the range of an `int` the count is what it was less the stores. -/
theorem Holds.count_eq (h : (outline count).Holds discipline s) (hfits : Fits 32 count)
    (hdowns : Fits 32 (count - (s.shared.downs + storing s : Nat))) :
    s.shared.count = count - s.shared.downs := by
  have hwrap : s.shared.count = wrap32 (count - s.shared.downs) :=
    h.always (fun _ _ hfree => hfree.1) fun p _ _ _ ha => assertion_count p ha
  have hlow := hdowns.1
  have hhigh := hfits.2
  rw [hwrap]
  refine wrap32_of_fits ⟨?_, ?_⟩
  · omega
  · omega

/-- **The latch.** In every run of any number of threads that keeps to the range of an `int`:
`holder_` names a thread exactly while it is between `assignHolder` and `unassignHolder`, and so
`isLockedByThisThread()` is true for the thread that has the mutex and for no other, nor for one in
`wait()`; no two threads are inside; no `countDown()` is lost; `wait()` returns only when the count
is not positive. When no thread can go on, each is outside or waits while the count is positive: no
wakeup is lost. No mutex is unlocked by a thread that does not have it. -/
theorem latch_run (hr : (machine program).Run (init count n) ops s) (hrange : InRange count ops) :
    (∀ (i : Nat) t, s.threads[i]? = some t →
      (s.holder = some i ↔ ∃ p, t.place = .running p ∧ p.assigned = true)) ∧
    (∀ (i j : Nat) p q a b, s.threads[i]? = some ⟨.running p, a⟩ →
      s.threads[j]? = some ⟨.running q, b⟩ → p.held = true → q.held = true → i = j) ∧
    s.shared.count + downCalls ops = count + storing s ∧
    (∀ (i : Nat) p r, s.threads[i]? = some ⟨.running p, r⟩ → p = .waitLeave ∨ p = .waitUnlock →
      s.shared.count ≤ 0) ∧
    ((∀ i woken, ¬ Enabled program s (.step i woken)) →
      ∀ t ∈ s.threads, t.isIdle program = true ∨ t.isWaiting = true ∧ 0 < s.shared.count) ∧
    ∀ op, Enabled program s op → ∃ s', exec program s op = .ok s' := by
  have h := run_holds hr hrange.1
  have hdowns := downs_eq hr
  refine ⟨fun i t ht => ?_, fun i j p q a b hi hj hp hq => ?_, ?_, fun i p r ht hp => ?_,
    fun hstuck t ht => ?_, fun op he => ?_⟩
  · rw [h.owned.holder_iff ht]
    obtain ⟨place, r⟩ := t
    cases place <;> simp [Discipline.assigns, discipline]
  · exact Option.some.inj (((h.owned.owner_iff hi).2 hp).symm.trans ((h.owned.owner_iff hj).2 hq))
  · have hcount := Holds.count_eq h hrange.1 (hdowns ▸ hrange.2)
    omega
  · have hheld : p.held = true := by rcases hp with rfl | rfl <;> rfl
    have ha := h.assertion i p r ((h.owned.owner_iff ht).2 hheld) ht
    rcases hp with rfl | rfl
    · exact ha.2
    · exact ha.2
  · obtain ⟨x, hfree, -, hall⟩ := h.stuck (valid count) hstuck
    rcases hall t ht with hidle | ⟨hwaiting, _, hpos⟩
    · exact .inl hidle
    · refine .inr ⟨hwaiting, Int.not_le.1 fun hle => ?_⟩
      exact Nat.ne_of_gt hpos (hfree.2 hle)
  · obtain ⟨s', hx, -⟩ := Owned.safe discipline s op h.owned he
    exact ⟨s', hx⟩

end

/-- One thread waits at a latch of 1 and another counts down, up to the store. -/
def store : List (Op Int Pc) :=
  [.call 0 .waitLock 0, .step 0 none, .step 0 none, .step 0 none, .step 0 none, .step 0 none,
    .call 1 .downLock 0, .step 1 none, .step 1 none, .step 1 none, .step 1 none]

def stored : State CountDownLatch Int Pc Unit :=
  ⟨⟨0, 1⟩, some 1, some 1, [⟨.waiting () .waitReassign, 0⟩, ⟨.running .downTest, 1⟩]⟩

theorem run_store : (machine program).Run (init 1 2) store stored := .of_replay_eq rfl

/-- The other thread notifies and leaves, and the first returns. -/
def leave : List (Op Int Pc) :=
  [.step 1 none, .step 1 none, .step 1 none, .step 1 none,
    .step 0 none, .step 0 none, .step 0 none, .step 0 none, .step 0 none]

theorem latch_run_store : (machine program).Run (init 1 2) store stored ∧
    stored.holder = some 1 ∧ stored.holder ≠ some 0 ∧
    stored.shared.count + downCalls store = 1 + storing stored := by
  have h := latch_run run_store (by unfold InRange; decide)
  refine ⟨run_store, (h.1 1 ⟨.running .downTest, 1⟩ rfl).2 ⟨.downTest, rfl, rfl⟩, fun hself => ?_,
    h.2.2.1⟩
  obtain ⟨p, hp, -⟩ := (h.1 0 ⟨.waiting () .waitReassign, 0⟩ rfl).1 hself
  cases hp

/-! ## The open latch -/

/-- How many steps a thread has to make once the count is not positive. -/
def Pc.steps : Pc → Nat
  | .outside | .waitUnassign | .waitCond => 0
  | .waitUnlock | .downUnlock | .getUnlock => 1
  | .waitLeave | .downLeave | .getLeave => 2
  | .waitTest | .downNotifyAll | .getLoad => 3
  | .waitAssign | .waitReassign | .downTest | .getAssign => 4
  | .waitLock | .downStore | .getLock => 5
  | .downLoad => 6
  | .downAssign => 7
  | .downLock => 8

def steps (t : Thread Int Pc Unit) : Nat :=
  match t.place with
  | .running p => p.steps
  | .woken _ _ => 5
  | .waiting _ _ => 6

theorem steps_le (t : Thread Int Pc Unit) : steps t ≤ 8 := by
  obtain ⟨place, r⟩ := t
  cases place with
  | running p => cases p <;> simp [steps, Pc.steps]
  | waiting c next => exact Nat.le_add_right 6 2
  | woken c next => exact Nat.le_add_right 5 3

/-- The latch is open, and stays in the range of an `int` when all calls that were made return. -/
structure Opened (n : Int) (s : State CountDownLatch Int Pc Unit) : Prop where
  holds : (outline n).Holds discipline s
  fits : Fits 32 n
  range : Fits 32 (n - (s.shared.downs + storing s : Nat))
  down : n ≤ s.shared.downs

namespace Opened

variable {n : Int} {s s' : State CountDownLatch Int Pc Unit} {ops : List (Op Int Pc)}

theorem count_le (h : Opened n s) : s.shared.count ≤ 0 := by
  have hcount := Holds.count_eq h.holds h.fits h.range
  have hdown := h.down
  omega

/-- Nobody adds to the count. -/
theorem run (h : Opened n s) (hr : (machine program).Run s ops s')
    (hrange : Fits 32 (n - (s.shared.downs + storing s + downCalls ops : Nat))) : Opened n s' where
  holds := hr.keeps (valid n).keeps h.holds
  fits := h.fits
  range := by rwa [run_downs hr]
  down := by
    have hle := run_downs_le hr
    have hdown := h.down
    omega

theorem steps_lt {op : Op Int Pc} (h : Opened n s) (hop : op.isCall = false)
    (he : Enabled program s op) (hx : exec program s op = .ok s') :
    (s'.threads.map steps).sum < (s.threads.map steps).sum := by
  have hle := h.count_le
  refine exec_sum_lt (m := 0) hop he hx (fun i p r ht hc => ?_) (fun c next r ht => ?_)
    (fun _ _ _ => Nat.le_succ 5) (fun _ _ _ _ _ => Nat.lt_succ_self 5) (.inl rfl)
  · cases p with
    | outside => exact absurd rfl hc
    -- here the thread has seen a positive count
    | waitUnassign | waitCond =>
      have ha := h.holds.assertion i _ r ((h.holds.owned.owner_iff ht).2 rfl) ht
      exact absurd ha.2 (Int.not_lt.2 hle)
    | waitTest =>
      have hno : decide (0 < s.shared.count) = false := decide_eq_false (Int.not_lt.2 hle)
      simp [land, program, code, Thread.goto, steps, hno, Pc.steps, Instr.gift]
    | downTest =>
      simp only [land, program, code, Thread.goto, steps]
      split <;> decide
    | _ => exact Nat.lt_succ_self _
  · obtain ⟨p, hp⟩ : ∃ p, code p = .wait c next := h.holds.owned.resumes _ ht
    have hnext : next = .waitReassign := by
      cases p <;> cases hp
      rfl
    subst hnext
    exact Nat.lt_succ_self _

end Opened

/-- **The latch opens for good.** Once the count is not positive it never is again, in any run that
keeps to the range of an `int`; when no thread can go on, every thread has returned from `wait()`;
and without new calls the run ends after at most eight steps for each thread. -/
theorem latch_opens {count : Int} {n : Nat} {ops ops' : List (Op Int Pc)}
    {s s' : State CountDownLatch Int Pc Unit} (hr : (machine program).Run (init count n) ops s)
    (hopen : s.shared.count ≤ 0) (hr' : (machine program).Run s ops' s')
    (hrange : InRange count (ops ++ ops')) :
    s'.shared.count ≤ 0 ∧
    ((∀ i woken, ¬ Enabled program s' (.step i woken)) →
      ∀ t ∈ s'.threads, t.isIdle program = true) ∧
    ((∀ op ∈ ops', op.isCall = false) → ops'.length ≤ 8 * s.threads.length) := by
  obtain ⟨hfits, hall⟩ := hrange
  have hdowns := downs_eq hr
  have hcalls : downCalls (ops ++ ops') = s.shared.downs + storing s + downCalls ops' := by
    rw [hdowns]
    exact List.countP_append
  rw [hcalls] at hall
  have hholds := run_holds hr hfits
  have hrange : Fits 32 (count - (s.shared.downs + storing s : Nat)) := by
    have hlow := hall.1
    have hhigh := hfits.2
    constructor
    · omega
    · omega
  have h : Opened count s := by
    refine ⟨hholds, hfits, hrange, ?_⟩
    have hcount := Holds.count_eq hholds hfits hrange
    omega
  have h' := h.run hr' hall
  refine ⟨h'.count_le, fun hstuck t ht => ?_, fun hquiet => ?_⟩
  · obtain ⟨x, hfree, -, hthreads⟩ := h'.holds.stuck (valid count) hstuck
    rcases hthreads t ht with hidle | ⟨-, _, hpos⟩
    · exact hidle
    · exact absurd (hfree.2 h'.count_le) (Nat.ne_of_gt hpos)
  · have hkeeps : ((machine program).under fun _ op => op.isCall = false).Keeps (Opened count) := by
      intro s op s' hs he hx
      refine hs.run (.single he.1 hx) ?_
      have hnone : downCalls [op] = 0 := by
        obtain ⟨-, hquiet⟩ := he
        cases op with
        | call i p r => cases hquiet
        | step i woken | wake i => rfl
      rw [hnone]
      exact hs.range
    have hlen : ops'.length + (s'.threads.map steps).sum ≤ (s.threads.map steps).sum :=
      (hr'.under_of_forall hquiet).length_add_rank_le hkeeps
        (fun s op s' hs he hx => hs.steps_lt he.2 he.1 hx) h
    have hsum := List.sum_map_le fun t (_ : t ∈ s.threads) => steps_le t
    omega

theorem latch_opens_leave : ∃ s',
    (machine program).Run stored leave s' ∧
    s'.threads = [⟨.running .outside, 0⟩, ⟨.running .outside, 1⟩] ∧
    s'.shared.count ≤ 0 ∧ leave.length ≤ 8 * 2 := by
  obtain ⟨s', hr, hthreads⟩ := Machine.Run.of_replay (machine program) stored leave State.threads
    [⟨.running .outside, 0⟩, ⟨.running .outside, 1⟩] rfl
  have h := latch_opens run_store (Int.le_refl 0) hr (by unfold InRange; decide)
  exact ⟨s', hr, hthreads, h.1, h.2.2 (by decide)⟩

end CountDownLatch
end TinyMuduo

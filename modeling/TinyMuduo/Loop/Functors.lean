import Mathlib.Algebra.Ring.Nat
import Mathlib.Logic.Function.Basic
import Mathlib.Data.List.Nodup
import TinyMuduo.Lib.Machine

/-!
# Loop.Functors

The functor queue of `muduo::net::EventLoop`: `queueInLoop`, `wakeup`, `handleRead`,
`doPendingFunctors` and the loop around them, with any number of other threads. Every critical
section, every write or read of the eventfd and every return of `poll` is a step. User code of the
loop thread runs in event handlers and in functors; a `runInLoop` there calls its functor at once
and is part of that code, and `runInLoop` in another thread is `queueInLoop`.

`pushed` and `executed` record the functors in the order they enter the queue and start to run.
The queue invariant is `Ordered`: what was pushed is what was executed, then what `functors` still
holds, then `pendingFunctors_`. The wakeup invariant is `Awake`: outside of event handling, a
non-empty queue has a wakeup that is written or still owed.
-/

namespace TinyMuduo
namespace EventLoop

/-- A queued functor, with the thread that queued it; `none` is the loop thread. -/
structure Entry (F : Type) where
  ticket : Nat
  thread : Option Nat
  cb : F

/-- A channel reported by `poll`: `wakeupChannel_`, or one with a handler of the user. -/
inductive Source where
  | wakeup
  | user
  deriving DecidableEq, Repr

/-- Where another thread is inside `queueInLoop` or `quit`. -/
inductive Caller where
  | idle
  /-- It has pushed a functor and has to call `wakeup()`. -/
  | pushed
  /-- It has set `quit_` and has to call `wakeup()`. -/
  | quitting
  deriving DecidableEq, Repr

/-- Where the loop thread is. -/
inductive Phase (F : Type) where
  | stopped
  /-- At `while (!quit_)`. -/
  | testing
  | polling
  | handling (active : List Source)
  /-- In `doPendingFunctors`, before the swap. -/
  | swapping
  /-- After the swap, between two functors. -/
  | running (functors : List (Entry F))
  /-- Inside a functor; `functors` come after it. -/
  | inside (functors : List (Entry F))

/-- The phases in which `callingPendingFunctors_` is set. -/
def Phase.calling {F : Type} : Phase F → Bool
  | .swapping | .running _ | .inside _ => true
  | .stopped | .testing | .polling | .handling _ => false

/-- The phases that `doPendingFunctors` follows without another `poll`. -/
def Phase.draining {F : Type} : Phase F → Bool
  | .handling _ | .swapping => true
  | .stopped | .testing | .polling | .running _ | .inside _ => false

structure Loop (F : Type) where
  phase : Phase F
  quit : Bool
  callingPendingFunctors : Bool
  pendingFunctors : List (Entry F)
  /-- The counter of the eventfd. -/
  counter : Nat
  caller : Nat → Caller
  /-- The loop thread has to call `wakeup()` itself. -/
  owesWakeup : Bool
  pushed : List (Entry F)
  executed : List (Entry F)

inductive Op (F : Type) where
  | push (t : Nat) (cb : F)
  | wakeup (t : Nat)
  | quit (t : Nat)
  | start
  | test
  | poll (active : List Source)
  | readWakeup
  | returnHandler
  | queueInLoop (cb : F)
  | wakeupSelf
  | quitSelf
  | doPendingFunctors
  | swap
  | call
  | returnFunctor
  | finish

namespace Loop

variable {F : Type}

def init : Loop F := ⟨.stopped, false, false, [], 0, fun _ => .idle, false, [], []⟩

/-- `write(wakeupFd_, 1)`: the eventfd is non-blocking, a write that would overflow fails. -/
def written (counter : Nat) : Nat := if counter < 2 ^ 64 - 2 then counter + 1 else counter

/-- The critical section of `queueInLoop`. -/
def enqueue (s : Loop F) (thread : Option Nat) (cb : F) : Loop F :=
  let e : Entry F := ⟨s.pushed.length, thread, cb⟩
  { s with pendingFunctors := s.pendingFunctors ++ [e], pushed := s.pushed ++ [e] }

def exec (s : Loop F) : Op F → Loop F
  | .push t cb =>
    { s.enqueue (some t) cb with caller := Function.update s.caller t .pushed }
  | .wakeup t =>
    { s with counter := written s.counter, caller := Function.update s.caller t .idle }
  | .quit t => { s with quit := true, caller := Function.update s.caller t .quitting }
  | .start => { s with phase := .testing, quit := false }
  | .test => { s with phase := if s.quit then .stopped else .polling }
  | .poll active => { s with phase := .handling active }
  | .readWakeup =>
    match s.phase with
    | .handling (_ :: active) => { s with phase := .handling active, counter := 0 }
    | _ => s
  | .returnHandler =>
    match s.phase with
    | .handling (_ :: active) => { s with phase := .handling active }
    | _ => s
  | .queueInLoop cb => { s.enqueue none cb with owesWakeup := s.callingPendingFunctors }
  | .wakeupSelf => { s with counter := written s.counter, owesWakeup := false }
  | .quitSelf => { s with quit := true }
  | .doPendingFunctors => { s with phase := .swapping, callingPendingFunctors := true }
  | .swap => { s with phase := .running s.pendingFunctors, pendingFunctors := [] }
  | .call =>
    match s.phase with
    | .running (e :: functors) =>
      { s with phase := .inside functors, executed := s.executed ++ [e] }
    | _ => s
  | .returnFunctor =>
    match s.phase with
    | .inside functors => { s with phase := .running functors }
    | _ => s
  | .finish => { s with phase := .testing, callingPendingFunctors := false }

/-- User code of the loop thread is running, and is not inside `queueInLoop`. -/
def UserCode (s : Loop F) : Prop :=
  s.owesWakeup = false ∧
    ((∃ active, s.phase = .handling (.user :: active)) ∨ ∃ rest, s.phase = .inside rest)

/-- `poll` may return at any time with any channels, but reports `wakeupChannel_` only when the
eventfd is readable. -/
def Enabled (s : Loop F) : Op F → Prop
  | .push t _ | .quit t => s.caller t = .idle
  | .wakeup t => s.caller t ≠ .idle
  | .start => s.phase = .stopped
  | .test => s.phase = .testing
  | .poll active => s.phase = .polling ∧ (.wakeup ∈ active → 0 < s.counter)
  | .readWakeup => ∃ active, s.phase = .handling (.wakeup :: active)
  | .returnHandler => ∃ active, s.phase = .handling (.user :: active)
  | .queueInLoop _ | .quitSelf => s.UserCode
  | .wakeupSelf => s.owesWakeup = true
  | .doPendingFunctors => s.phase = .handling []
  | .swap => s.phase = .swapping
  | .call => ∃ e rest, s.phase = .running (e :: rest)
  | .returnFunctor => s.owesWakeup = false ∧ ∃ rest, s.phase = .inside rest
  | .finish => s.phase = .running []

/-- The functors that are swapped out and have not been called. -/
def functors (s : Loop F) : List (Entry F) :=
  match s.phase with
  | .running functors | .inside functors => functors
  | _ => []

/-! ## The queue -/

/-- Every functor that was pushed is executed, about to be executed, or pending, in the order of
the pushes, and no ticket is used twice. -/
structure Ordered (s : Loop F) : Prop where
  split : s.pushed = s.executed ++ (s.functors ++ s.pendingFunctors)
  tickets : s.pushed.map Entry.ticket = List.range s.pushed.length

/-- A step that moves no functor. -/
theorem Ordered.stay {s s' : Loop F} (h : s.Ordered) (hp : s'.pushed = s.pushed)
    (hx : s'.executed = s.executed) (hf : s'.functors = s.functors)
    (hq : s'.pendingFunctors = s.pendingFunctors) : s'.Ordered :=
  ⟨by rw [hp, hx, hf, hq]; exact h.split, by rw [hp]; exact h.tickets⟩

theorem Ordered.enqueue {s s' : Loop F} (h : s.Ordered) (thread : Option Nat) (cb : F)
    (hp : s'.pushed = (s.enqueue thread cb).pushed) (hx : s'.executed = s.executed)
    (hf : s'.functors = s.functors)
    (hq : s'.pendingFunctors = (s.enqueue thread cb).pendingFunctors) : s'.Ordered := by
  refine ⟨?_, ?_⟩
  · rw [hp, hx, hf, hq, Loop.enqueue, h.split]
    simp only [List.append_assoc]
  · rw [hp, Loop.enqueue]
    simp [h.tickets, List.range_succ]

theorem exec_ordered {s : Loop F} {op : Op F} (h : s.Ordered) (he : s.Enabled op) :
    (s.exec op).Ordered := by
  cases op with
  | push t cb => exact h.enqueue (some t) cb rfl rfl rfl rfl
  | queueInLoop cb => exact h.enqueue none cb rfl rfl rfl rfl
  | wakeup t | quit t | wakeupSelf | quitSelf => exact h.stay rfl rfl rfl rfl
  | start =>
    rw [Enabled] at he
    exact h.stay rfl rfl (by simp [functors, exec, he]) rfl
  | test =>
    rw [Enabled] at he
    refine h.stay rfl rfl ?_ rfl
    cases hq : s.quit <;> simp [functors, exec, he, hq]
  | poll active =>
    exact h.stay rfl rfl (by simp [functors, exec, he.1]) rfl
  | readWakeup | returnHandler =>
    obtain ⟨active, hp⟩ := he
    simp only [exec, hp]
    exact h.stay rfl rfl (by simp [functors, hp]) rfl
  | doPendingFunctors =>
    rw [Enabled] at he
    exact h.stay rfl rfl (by simp [functors, exec, he]) rfl
  | swap =>
    rw [Enabled] at he
    refine ⟨?_, h.tickets⟩
    have hs := h.split
    simp only [functors, he, List.nil_append] at hs
    simpa [exec, functors] using hs
  | call =>
    obtain ⟨e, rest, hp⟩ := he
    simp only [exec, hp]
    refine ⟨?_, h.tickets⟩
    have hs := h.split
    simp only [functors, hp] at hs
    simpa [functors] using hs
  | returnFunctor =>
    obtain ⟨_, rest, hp⟩ := he
    simp only [exec, hp]
    exact h.stay rfl rfl (by simp [functors, hp]) rfl
  | finish =>
    rw [Enabled] at he
    exact h.stay rfl rfl (by simp [functors, exec, he]) rfl

/-! ## Wakeups -/

/-- A non-empty queue has a wakeup that is written or owed. -/
def Awake (s : Loop F) : Prop :=
  s.pendingFunctors = [] ∨ 0 < s.counter ∨ (∃ t, s.caller t = .pushed) ∨ s.owesWakeup = true

theorem written_pos (counter : Nat) : 0 < written counter := by
  unfold written
  split <;> omega

structure Notified (s : Loop F) : Prop where
  awake : s.phase.draining = false → s.Awake
  owes : s.owesWakeup = true → ∃ rest, s.phase = .inside rest
  calling : s.callingPendingFunctors = s.phase.calling

/-- A step to a phase that still has the wakeup. -/
theorem Notified.move {s s' : Loop F} (h : s.Notified) (hd : s.phase.draining = false)
    (hq : s'.pendingFunctors = s.pendingFunctors) (hc : s'.counter = s.counter)
    (ht : s'.caller = s.caller) (ho : s'.owesWakeup = s.owesWakeup) : s'.Awake := by
  have := h.awake hd
  rwa [Awake, hq, hc, ht, ho]

theorem Notified.not_owes {s : Loop F} (h : s.Notified) (hp : ∀ rest, s.phase ≠ .inside rest) :
    s.owesWakeup = false := by
  by_contra ho
  obtain ⟨rest, hr⟩ := h.owes (by simpa using ho)
  exact hp rest hr

/-- A step of the loop thread from outside of a functor, where it owes no wakeup. -/
theorem Notified.outside {s s' : Loop F} (h : s.Notified) (hp : ∀ rest, s.phase ≠ .inside rest)
    (ho : s'.owesWakeup = s.owesWakeup) (ha : s'.phase.draining = false → s'.Awake)
    (hc : s'.callingPendingFunctors = s'.phase.calling) : s'.Notified := by
  refine ⟨ha, fun ho' => ?_, hc⟩
  cases (ho.trans (h.not_owes hp)).symm.trans ho'

theorem exec_notified {s : Loop F} {op : Op F} (h : s.Notified) (he : s.Enabled op) :
    (s.exec op).Notified := by
  cases op with
  | push t cb =>
    exact ⟨fun _ => Or.inr (Or.inr (Or.inl ⟨t, Function.update_self ..⟩)), h.owes, h.calling⟩
  | wakeup t => exact ⟨fun _ => Or.inr (Or.inl (written_pos _)), h.owes, h.calling⟩
  | quit t =>
    refine ⟨fun hd => ?_, h.owes, h.calling⟩
    rcases h.awake hd with hq | hc | ⟨u, hu⟩ | ho
    · exact Or.inl hq
    · exact Or.inr (Or.inl hc)
    · have hut : u ≠ t := fun hut => by
        rw [hut] at hu
        cases hu.symm.trans he
      exact Or.inr (Or.inr (Or.inl ⟨u, by simp [exec, hut, hu]⟩))
    · exact Or.inr (Or.inr (Or.inr ho))
  | start =>
    rw [Enabled] at he
    exact h.outside (by rw [he]; nofun) rfl (fun _ => h.move (by rw [he]; rfl) rfl rfl rfl rfl)
      (h.calling.trans (by rw [he]; rfl))
  | test =>
    rw [Enabled] at he
    refine h.outside (by rw [he]; nofun) rfl (fun _ => h.move (by rw [he]; rfl) rfl rfl rfl rfl)
      (h.calling.trans ?_)
    rw [he]
    cases hq : s.quit <;> simp [exec, hq, Phase.calling]
  | poll active =>
    exact h.outside (by rw [he.1]; nofun) rfl nofun (h.calling.trans (by rw [he.1]; rfl))
  | readWakeup | returnHandler =>
    obtain ⟨active, hp⟩ := he
    simp only [exec, hp]
    exact h.outside (by rw [hp]; nofun) rfl nofun (h.calling.trans (by rw [hp]; rfl))
  | queueInLoop cb =>
    rcases he.2 with ⟨active, hp⟩ | ⟨rest, hp⟩
    · have hcalling : s.callingPendingFunctors = false := h.calling.trans (by rw [hp]; rfl)
      refine ⟨fun hd => ?_, fun ho => ?_, h.calling⟩
      · rw [show (s.exec (.queueInLoop cb)).phase = s.phase from rfl, hp] at hd
        cases hd
      · cases hcalling.symm.trans ho
    · have hcalling : s.callingPendingFunctors = true := h.calling.trans (by rw [hp]; rfl)
      exact ⟨fun _ => Or.inr (Or.inr (Or.inr hcalling)), fun _ => ⟨rest, hp⟩, h.calling⟩
  | wakeupSelf =>
    exact ⟨fun _ => Or.inr (Or.inl (written_pos _)), nofun, h.calling⟩
  | quitSelf => exact ⟨h.awake, h.owes, h.calling⟩
  | doPendingFunctors =>
    rw [Enabled] at he
    exact h.outside (by rw [he]; nofun) rfl nofun rfl
  | swap =>
    rw [Enabled] at he
    exact h.outside (by rw [he]; nofun) rfl (fun _ => Or.inl rfl)
      (h.calling.trans (by rw [he]; rfl))
  | call =>
    obtain ⟨e, rest, hp⟩ := he
    simp only [exec, hp]
    refine ⟨fun _ => h.move (by rw [hp]; rfl) rfl rfl rfl rfl, fun _ => ⟨rest, rfl⟩, ?_⟩
    exact h.calling.trans (by rw [hp]; rfl)
  | returnFunctor =>
    obtain ⟨ho, rest, hp⟩ := he
    simp only [exec, hp]
    refine ⟨fun _ => h.move (by rw [hp]; rfl) rfl rfl rfl rfl, fun ho' => ?_, ?_⟩
    · cases ho.symm.trans ho'
    · exact h.calling.trans (by rw [hp]; rfl)
  | finish =>
    rw [Enabled] at he
    exact h.outside (by rw [he]; nofun) rfl (fun _ => h.move (by rw [he]; rfl) rfl rfl rfl rfl) rfl

end Loop

variable {F : Type}

def machine : Machine (Loop F) (Op F) Empty where
  enabled := Loop.Enabled
  exec s op := .ok (s.exec op)

/-- The functor that a step queues, with its thread. -/
def Op.queued : Op F → Option (Option Nat × F)
  | .push t cb => some (some t, cb)
  | .queueInLoop cb => some (none, cb)
  | _ => none

def Op.isCall : Op F → Bool
  | .call => true
  | _ => false

/-- The histories are those of the steps taken. -/
structure Recorded (ops : List (Op F)) (s : Loop F) : Prop where
  pushed : (s.pushed.map fun e => (e.thread, e.cb)) = ops.filterMap Op.queued
  executed : s.executed.length = ops.countP Op.isCall

theorem Recorded.exec {ops : List (Op F)} {s : Loop F} {op : Op F} (h : Recorded ops s)
    (he : s.Enabled op) : Recorded (ops ++ [op]) (s.exec op) := by
  cases op with
  | push t cb | queueInLoop cb =>
    exact ⟨by simp [Loop.exec, Loop.enqueue, Op.queued, h.pushed],
      by simp [Loop.exec, Loop.enqueue, Op.isCall, h.executed]⟩
  | call =>
    obtain ⟨e, rest, hp⟩ := he
    exact ⟨by simp [Loop.exec, hp, Op.queued, h.pushed],
      by simp [Loop.exec, hp, Op.isCall, h.executed]⟩
  | readWakeup | returnHandler =>
    obtain ⟨active, hp⟩ := he
    exact ⟨by simp [Loop.exec, hp, Op.queued, h.pushed],
      by simp [Loop.exec, hp, Op.isCall, h.executed]⟩
  | returnFunctor =>
    obtain ⟨-, rest, hp⟩ := he
    exact ⟨by simp [Loop.exec, hp, Op.queued, h.pushed],
      by simp [Loop.exec, hp, Op.isCall, h.executed]⟩
  | _ =>
    exact ⟨by simp [Loop.exec, Op.queued, h.pushed], by simp [Loop.exec, Op.isCall, h.executed]⟩

theorem run_recorded {ops : List (Op F)} {s : Loop F} (h : Machine.Run machine .init ops s) :
    Recorded ops s := by
  have hinit : Recorded [] (Loop.init : Loop F) := ⟨rfl, rfl⟩
  refine h.keeps_trace (I := Recorded) (fun ops s op s' hs he hx => ?_) hinit
  cases hx
  exact hs.exec he

/-- What one thread has queued. -/
def byThread (t : Option Nat) (l : List (Entry F)) : List (Entry F) :=
  l.filter fun e => e.thread == t

/-- **The functor queue.** In every interleaving: what was pushed is what the threads queued, in
that order; functors run in the order of the pushes, also those of one thread, none runs twice, each
one that left `pendingFunctors_` has run or is in the batch being run, and a loop that waits in
`poll` with functors pending has a readable eventfd or another thread between its push and its
`wakeup()`. -/
theorem functor_queue {ops : List (Op F)} {s : Loop F} (h : Machine.Run machine .init ops s) :
    (s.pushed.map fun e => (e.thread, e.cb)) = ops.filterMap Op.queued ∧
    s.executed.length = ops.countP Op.isCall ∧
    s.executed <+: s.pushed ∧
    (∀ t, byThread t s.executed <+: byThread t s.pushed) ∧
    (s.executed.map Entry.ticket).Nodup ∧
    s.pushed = s.executed ++ (s.functors ++ s.pendingFunctors) ∧
    (s.phase = .polling → s.pendingFunctors ≠ [] →
      0 < s.counter ∨ ∃ t, s.caller t = .pushed) := by
  have hinit : (Loop.init : Loop F).Ordered ∧ (Loop.init : Loop F).Notified :=
    ⟨⟨rfl, rfl⟩, fun _ => Or.inl rfl, nofun, rfl⟩
  obtain ⟨ho, hn⟩ : s.Ordered ∧ s.Notified := by
    refine h.keeps (I := fun s => s.Ordered ∧ s.Notified) ?_ hinit
    rintro s op s' ⟨ho, hn⟩ he hx
    cases hx
    exact ⟨Loop.exec_ordered ho he, Loop.exec_notified hn he⟩
  have hpre : s.executed <+: s.pushed := ⟨_, ho.split.symm⟩
  have hrec := run_recorded h
  refine ⟨hrec.pushed, hrec.executed, hpre, fun t => hpre.filter _, ?_, ho.split,
    fun hp hne => ?_⟩
  · refine List.Nodup.sublist (hpre.map Entry.ticket).sublist ?_
    rw [ho.tickets]
    exact List.nodup_range
  · rcases hn.awake (by rw [hp]; rfl) with hq | hc | ht | hw
    · exact absurd hq hne
    · exact Or.inl hc
    · exact Or.inr ht
    · cases (hn.not_owes (by rw [hp]; nofun)).symm.trans hw

/-- A functor queued by thread 1 wakes the loop and queues another one: the loop is back in `poll`
with the second functor pending. -/
theorem functor_queue_sample :
    ∃ s : Loop Unit, Machine.Run machine .init
      [.push 1 (), .start, .test, .wakeup 1, .poll [.wakeup], .readWakeup, .doPendingFunctors,
        .swap, .call, .queueInLoop (), .wakeupSelf, .returnFunctor, .finish, .test] s ∧
      s.phase = .polling ∧ s.pendingFunctors ≠ [] ∧
        (0 < s.counter ∨ ∃ t, s.caller t = .pushed) := by
  obtain ⟨s, hrun, hp, hne⟩ : ∃ s : Loop Unit, Machine.Run machine .init
      [.push 1 (), .start, .test, .wakeup 1, .poll [.wakeup], .readWakeup, .doPendingFunctors,
        .swap, .call, .queueInLoop (), .wakeupSelf, .returnFunctor, .finish, .test] s ∧
      s.phase = .polling ∧ s.pendingFunctors ≠ [] :=
    ⟨_, .cons rfl rfl (.cons rfl rfl (.cons rfl rfl (.cons nofun rfl (.cons ⟨rfl, by decide⟩ rfl
      (.cons ⟨_, rfl⟩ rfl (.cons rfl rfl (.cons rfl rfl (.cons ⟨_, _, rfl⟩ rfl
      (.cons ⟨rfl, .inr ⟨_, rfl⟩⟩ rfl (.cons rfl rfl (.cons ⟨rfl, _, rfl⟩ rfl (.cons rfl rfl
      (.cons rfl rfl .nil))))))))))))), rfl, nofun⟩
  exact ⟨s, hrun, hp, hne, (functor_queue hrun).2.2.2.2.2.2 hp hne⟩

end EventLoop
end TinyMuduo

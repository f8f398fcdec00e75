import TinyMuduo.Lib.Machine
import TinyMuduo.Timer.Queue

/-!
# Timer.Ownership

Runs of a `TimerQueue` in its loop, with any timers, callbacks, cancellations and clock readings,
and an allocator that may use an address again.

* `Step` spells out what each operation does to a state that satisfies the invariant `Inv`;
  `exec_step` says that it does so without a fault.
* `timer_ownership` is the representation invariant over all runs.
-/

namespace TinyMuduo
namespace TimerLoop

open TimerQueue Result

/-- The pointers to timers outside of `timers_`. -/
def held (s : TimerLoop) : List Addr := s.phase.batch.map Entry.addr ++ s.pending

/-- All pointers to timers that will be used to reach them or to delete them. -/
def pointers (s : TimerLoop) : List Addr := s.queue.addrs ++ s.held

/-- Every number is given once, the sequence is the number as far as it fits, a live timer is at the
address of its id, and a deleted one is not live. -/
structure Numbered (heap : Addr → Option Timer) (deleted : List Nat)
    (created : List (TimerId × Nat)) (numCreated : Int) (count : Nat) : Prop where
  counter : numCreated = wrap64 count
  numbers : (created.map Prod.snd).Nodup
  bound : ∀ c ∈ created, 0 < c.2 ∧ c.2 ≤ count
  sequence : ∀ c ∈ created, c.1.2 = wrap64 c.2
  live : ∀ p timer, heap p = some timer → ((p, timer.sequence), timer.number) ∈ created
  addr : ∀ p timer, heap p = some timer → p < maxAddr
  dead : ∀ p timer, heap p = some timer → timer.number ∉ deleted
  deleted_nodup : deleted.Nodup
  deleted_created : ∀ n ∈ deleted, ∃ id, (id, n) ∈ created

theorem incrementAndGet_wrap64 (n : Nat) : incrementAndGet (wrap64 n) = wrap64 (n + 1 : Nat) := by
  rw [incrementAndGet, wrap64, wrap64, wrap64, Int.bmod_add_bmod, Nat.cast_succ]

namespace Numbered

variable {heap : Addr → Option Timer} {deleted : List Nat} {created : List (TimerId × Nat)}
  {numCreated : Int} {count : Nat} {p : Addr} {timer : Timer}

theorem unique (h : Numbered heap deleted created numCreated count) {c c' : TimerId × Nat}
    (hm : c ∈ created) (hm' : c' ∈ created) (he : c.2 = c'.2) : c = c' :=
  List.inj_on_of_nodup_map h.numbers hm hm' he

theorem next (h : Numbered heap deleted created numCreated count) :
    incrementAndGet numCreated = wrap64 (count + 1 : Nat) := by
  rw [h.counter, incrementAndGet_wrap64]

theorem skip (h : Numbered heap deleted created numCreated count) :
    Numbered heap deleted created (incrementAndGet numCreated) (count + 1) :=
  { h with
    counter := h.next
    bound := fun c hm => (h.bound c hm).imp_right Nat.le_succ_of_le }

theorem alloc (h : Numbered heap deleted created numCreated count) (hp : p < maxAddr)
    (hs : timer.sequence = incrementAndGet numCreated) (hn : timer.number = count + 1) :
    Numbered (Function.update heap p (some timer)) deleted
      (created ++ [((p, timer.sequence), timer.number)]) (incrementAndGet numCreated)
      (count + 1) where
  counter := h.next
  numbers := by
    rw [List.map_append, List.nodup_append]
    refine ⟨h.numbers, List.nodup_singleton _, ?_⟩
    intro n hn' m hm hnm
    obtain ⟨c, hc, rfl⟩ := List.mem_map.1 hn'
    have hb := h.bound c hc
    simp only [List.map_cons, List.map_nil, List.mem_singleton] at hm
    omega
  bound c hm := by
    rcases List.mem_append.1 hm with hm | hm
    · exact (h.bound c hm).imp_right Nat.le_succ_of_le
    · rw [List.mem_singleton.1 hm, hn]
      exact ⟨Nat.succ_pos _, Nat.le_refl _⟩
  sequence c hm := by
    rcases List.mem_append.1 hm with hm | hm
    · exact h.sequence c hm
    · rw [List.mem_singleton.1 hm, hn, hs]
      exact h.next
  live x timer' hx := by
    rcases Heap.update_eq_some.1 hx with ⟨rfl, heq⟩ | ⟨-, hx⟩
    · cases heq
      simp
    · exact List.mem_append_left _ (h.live x timer' hx)
  addr x timer' hx := by
    rcases Heap.update_eq_some.1 hx with ⟨rfl, -⟩ | ⟨-, hx⟩
    · exact hp
    · exact h.addr x timer' hx
  dead x timer' hx := by
    rcases Heap.update_eq_some.1 hx with ⟨rfl, heq⟩ | ⟨-, hx⟩
    · cases heq
      intro hd
      obtain ⟨p', hc⟩ := h.deleted_created _ hd
      have := h.bound _ hc
      omega
    · exact h.dead x timer' hx
  deleted_nodup := h.deleted_nodup
  deleted_created n hn := by
    obtain ⟨x, hx⟩ := h.deleted_created n hn
    exact ⟨x, List.mem_append_left _ hx⟩

theorem assign (h : Numbered heap deleted created numCreated count) (hp : heap p = some timer)
    {timer' : Timer} (hs : timer'.sequence = timer.sequence) (hn : timer'.number = timer.number) :
    Numbered (Function.update heap p (some timer')) deleted created numCreated count := by
  have hold : ∀ x t, Function.update heap p (some timer') x = some t →
      ∃ t', heap x = some t' ∧ t.sequence = t'.sequence ∧ t.number = t'.number := by
    intro x t hx
    rcases Heap.update_eq_some.1 hx with ⟨rfl, heq⟩ | ⟨-, hx⟩
    · cases heq
      exact ⟨timer, hp, hs, hn⟩
    · exact ⟨t, hx, rfl, rfl⟩
  refine { h with live := ?_, addr := ?_, dead := ?_ }
  · intro x t hx
    obtain ⟨t', hx', hs, hn⟩ := hold x t hx
    rw [hs, hn]
    exact h.live x t' hx'
  · intro x t hx
    obtain ⟨t', hx', -⟩ := hold x t hx
    exact h.addr x t' hx'
  · intro x t hx
    obtain ⟨t', hx', -, hn⟩ := hold x t hx
    rw [hn]
    exact h.dead x t' hx'

theorem free (h : Numbered heap deleted created numCreated count) (hp : heap p = some timer) :
    Numbered (Function.update heap p none)
      (deleted ++ [timer.number]) created numCreated count := by
  have hold : ∀ x t, Function.update heap p none x = some t → x ≠ p ∧ heap x = some t :=
    fun _ _ => Heap.free_eq_some.1
  refine ⟨h.counter, h.numbers, h.bound, h.sequence, ?_, ?_, ?_, ?_, ?_⟩
  · intro x t hx
    exact h.live x t (hold x t hx).2
  · intro x t hx
    exact h.addr x t (hold x t hx).2
  · intro x t hx hd
    obtain ⟨hxp, hx⟩ := hold x t hx
    rcases List.mem_append.1 hd with hd | hd
    · exact h.dead x t hx hd
    · have := h.unique (h.live x t hx) (h.live p timer hp) (List.mem_singleton.1 hd)
      exact hxp (congrArg (fun c => c.1.1) this)
  · exact List.nodup_append.2 ⟨h.deleted_nodup, List.nodup_singleton _, fun n hn m hm hnm =>
      h.dead p timer hp (List.mem_singleton.1 hm ▸ hnm ▸ hn)⟩
  · intro n hn
    rcases List.mem_append.1 hn with hn | hn
    · exact h.deleted_created n hn
    · rw [List.mem_singleton.1 hn]
      exact ⟨_, h.live p timer hp⟩

end Numbered

/-- Timer `n` is deleted, or lives at an address that no queued functor has. -/
def Delivered (q : TimerQueue) (pending : List Addr) (n : Nat) : Prop :=
  n ∈ q.deleted ∨ ∃ p, q.Holds p n ∧ p ∉ pending

structure Inv (s : TimerLoop) : Prop where
  owns : s.queue.Owns s.held
  numbered : Numbered s.queue.heap s.queue.deleted s.created s.numCreated s.count
  delivered : ∀ n ∈ s.given, Delivered s.queue s.pending n

theorem Inv.init : TimerLoop.init.Inv where
  owns := ⟨.empty, List.nodup_nil, nofun, fun _ _ => ⟨nofun, nofun⟩, rfl⟩
  numbered := ⟨by decide, List.nodup_nil, nofun, nofun, nofun, nofun, nofun, List.nodup_nil, nofun⟩
  delivered := nofun

/-! ## Steps -/

/-- What an operation does to a state in which every pointer is good. -/
inductive Step (s : TimerLoop) : TimerOp → TimerLoop → Prop where
  | otherQueue : Step s .otherQueue
      { s with numCreated := incrementAndGet s.numCreated, count := s.count + 1 }
  | create {p : Addr} {when_ : Timestamp} {repeat_ : Bool} {delta : Int} :
      s.Allocates p repeat_ delta →
      Step s (.create p when_ repeat_ delta)
        { s.newTimer p when_ repeat_ delta with pending := s.pending ++ [p] }
  | runFunctor {p : Addr} {pending : List Addr} {timer : Timer} {clock : Clock} :
      s.phase = .idle → s.pending = p :: pending → s.queue.heap p = some timer →
      Step s (.runFunctor clock) { s with
        queue := s.queue.added p timer clock
        pending := pending
        given := s.given ++ [timer.number] }
  | addTimer {p : Addr} {when_ : Timestamp} {repeat_ : Bool} {delta : Int} {clock : Clock} :
      s.UserCode → s.Allocates p repeat_ delta →
      Step s (.addTimer p when_ repeat_ delta clock) { s.newTimer p when_ repeat_ delta with
        queue := (s.newTimer p when_ repeat_ delta).queue.added p
          (s.fresh when_ repeat_ delta) clock
        given := s.given ++ [s.count + 1] }
  | cancel {id : TimerId} {queue : TimerQueue} :
      s.UserCode → s.queue.Cancelled id queue →
      Step s (.cancel id) { s with
        queue := queue
        log := s.log ++ s.cancellations id }
  | handleRead {now readAt : Timestamp} {active : OrdSet ActiveTimer} {fd : Option Armed} :
      s.phase = .idle →
      (s.queue.handling now active fd).Owns
        ((s.queue.timers.below (sentry now)).map Entry.addr ++ s.held) →
      Step s (.handleRead now readAt) { s with
        queue := s.queue.handling now active fd
        phase := .calling now [] (s.queue.timers.below (sentry now)) }
  | startCallback {now : Timestamp} {done todo : List Entry} {e : Entry} {timer : Timer} :
      s.phase = .calling now done (e :: todo) → s.queue.heap e.addr = some timer →
      Step s .startCallback { s with
        phase := .calling now (done ++ [e]) todo
        log := s.log ++ [.started timer.number] }
  | endCallbacks {now : Timestamp} {done : List Entry} :
      s.phase = .calling now done [] →
      Step s .endCallbacks { s with
        queue := { s.queue with callingExpiredTimers := false }
        phase := .resetting now done }
  | restart {now : Timestamp} {e : Entry} {todo : List Entry} {timer : Timer} :
      s.phase = .resetting now (e :: todo) → s.queue.heap e.addr = some timer →
      s.queue.Restarts e.addr timer →
      Step s .resetEntry { s with
        queue := s.queue.restarted e.addr timer now
        phase := .resetting now todo }
  | delete {now : Timestamp} {e : Entry} {todo : List Entry} {timer : Timer} :
      s.phase = .resetting now (e :: todo) → s.queue.heap e.addr = some timer →
      ¬ s.queue.Restarts e.addr timer →
      Step s .resetEntry { s with
        queue := s.queue.freed e.addr timer
        phase := .resetting now todo }
  | endReset {now : Timestamp} {clock : Clock} :
      s.phase = .resetting now [] →
      Step s (.endReset clock) { s with queue := s.queue.rearmed clock, phase := .idle }

variable {s s' : TimerLoop} {op : TimerOp}

theorem Inv.addrs_lt (h : s.Inv) : ∀ p ∈ s.queue.addrs, p < maxAddr := by
  intro p hp
  obtain ⟨timer, ht⟩ := h.owns.owned.get (List.mem_append_left _ hp)
  exact h.numbered.addr p timer ht

/-- The batch in front of the pointers held. -/
theorem held_resetting {now : Timestamp} {e : Entry} {todo : List Entry}
    (hp : s.phase = .resetting now (e :: todo)) :
    s.held = e.addr :: (todo.map Entry.addr ++ s.pending) := by
  rw [held, hp]
  rfl

theorem add_eq {p : Addr} {held : List Addr} {timer : Timer} (h : s.queue.Owns (p :: held))
    (ht : s.queue.heap p = some timer) (clock : Clock) :
    s.add p clock = .ok { s with
      queue := s.queue.added p timer clock
      given := s.given ++ [timer.number] } := by
  rw [add, Owns.deref ht, ok_bind, addTimerInLoop_eq h ht, ok_bind]

theorem newTimer_owns (h : s.Inv) {p : Addr} (hp : s.queue.heap p = none) (when_ : Timestamp)
    (repeat_ : Bool) (delta : Int) : (s.newTimer p when_ repeat_ delta).queue.Owns (p :: s.held) :=
  h.owns.alloc hp _

theorem pending_owns (h : s.Inv) {p : Addr} {pending : List Addr}
    (hp : s.pending = p :: pending) :
    s.queue.Owns (p :: (s.phase.batch.map Entry.addr ++ pending)) := by
  refine h.owns.perm ?_
  rw [held, hp]
  exact List.perm_middle.symm

theorem exec_step (h : s.Inv) (he : s.Enabled op) : ∃ s', s.exec op = .ok s' ∧ s.Step op s' := by
  cases op with
  | otherQueue => exact ⟨_, rfl, .otherQueue⟩
  | create p when_ repeat_ delta => exact ⟨_, rfl, .create he⟩
  | runFunctor clock =>
    obtain ⟨hidle, hne⟩ := he
    cases hp : s.pending with
    | nil => exact absurd hp hne
    | cons p pending =>
      have hown := pending_owns h hp
      obtain ⟨timer, ht⟩ := hown.get List.mem_cons_self
      refine ⟨_, ?_, .runFunctor hidle hp ht⟩
      rw [exec, hp]
      exact add_eq (s := { s with pending := pending }) hown ht clock
  | addTimer p when_ repeat_ delta clock =>
    refine ⟨_, ?_, .addTimer he.1 he.2⟩
    exact add_eq (newTimer_owns h he.2.1 when_ repeat_ delta) (Function.update_self ..) clock
  | cancel id =>
    obtain ⟨q', hx, hc⟩ := cancelInLoop_eq h.owns id
    refine ⟨_, ?_, .cancel he hc⟩
    rw [exec, hx]
    rfl
  | handleRead now readAt =>
    obtain ⟨active, fd, hx, hown⟩ := beginHandleRead_eq h.owns h.addrs_lt now readAt
    refine ⟨_, ?_, .handleRead he hown⟩
    rw [exec, hx]
    rfl
  | startCallback =>
    obtain ⟨now, done, e, todo, hp⟩ := he
    obtain ⟨timer, ht⟩ : ∃ timer, s.queue.heap e.addr = some timer :=
      h.owns.get (by simp [held, hp, TimerPhase.batch])
    refine ⟨_, ?_, .startCallback hp ht⟩
    unfold Entry.addr at ht
    simp only [exec, hp, Owns.deref ht, ok_bind]
  | endCallbacks =>
    obtain ⟨now, done, hp⟩ := he
    refine ⟨_, ?_, .endCallbacks hp⟩
    simp only [exec, hp]
  | resetEntry =>
    obtain ⟨now, e, todo, hp⟩ := he
    have hown := h.owns
    rw [held_resetting hp] at hown
    obtain ⟨timer, ht⟩ := hown.get List.mem_cons_self
    by_cases hr : s.queue.Restarts e.addr timer
    · refine ⟨_, ?_, .restart hp ht hr⟩
      simp only [exec, hp, resetEntry_restart hown ht hr now, ok_bind]
    · refine ⟨_, ?_, .delete hp ht hr⟩
      simp only [exec, hp, resetEntry_delete ht hr now, ok_bind]
  | endReset clock =>
    obtain ⟨now, hp⟩ := he
    refine ⟨_, ?_, .endReset hp⟩
    rw [exec, rearm_eq h.owns clock]
    rfl

/-! ## The invariant -/

theorem Delivered.alloc {q : TimerQueue} {pending pending' : List Addr} {p : Addr} {n : Nat}
    (h : Delivered q pending n) (hp : q.heap p = none) (timer : Timer)
    (hpend : ∀ x ∈ pending', x ∈ pending ∨ x = p) :
    Delivered { q with heap := Function.update q.heap p (some timer) } pending' n := by
  rcases h with hd | ⟨x, ⟨t, ht, hn⟩, hx⟩
  · exact Or.inl hd
  · have hxp : x ≠ p := by
      rintro rfl
      rw [hp] at ht
      cases ht
    refine Or.inr ⟨x, ⟨t, by simpa [hxp] using ht, hn⟩, fun hm => ?_⟩
    rcases hpend x hm with hm | hm
    · exact hx hm
    · exact hxp hm

theorem Delivered.freed {q : TimerQueue} {pending : List Addr} {p : Addr} {n : Nat} {timer : Timer}
    (h : Delivered q pending n) (hp : q.heap p = some timer) :
    Delivered (q.freed p timer) pending n := by
  rcases h with hd | ⟨x, ⟨t, ht, hn⟩, hx⟩
  · exact Or.inl (List.mem_append_left _ hd)
  · by_cases hxp : x = p
    · subst hxp
      obtain rfl : timer = t := Option.some.inj (hp.symm.trans ht)
      exact Or.inl (by simp [TimerQueue.freed, hn])
    · exact Or.inr ⟨x, ⟨t, by simpa [TimerQueue.freed, hxp] using ht, hn⟩, hx⟩

theorem step_inv (h : s.Inv) (hs : s.Step op s') : s'.Inv := by
  cases hs with
  | otherQueue => exact ⟨h.owns, h.numbered.skip, h.delivered⟩
  | @create p when_ repeat_ delta ha =>
    refine ⟨?_, h.numbered.alloc ha.2.1 rfl rfl, fun n hn => ?_⟩
    · refine (newTimer_owns h ha.1 when_ repeat_ delta).perm ?_
      simp only [held, newTimer, ← List.append_assoc]
      exact List.perm_append_singleton _ _
    · exact (h.delivered n hn).alloc ha.1 _ (by simp)
  | @runFunctor p pending timer clock hidle hp ht =>
    have hown := pending_owns h hp
    have hnd : p ∉ pending := fun hm =>
      (List.nodup_cons.1 hown.owned.nodup.of_append_right).1 (List.mem_append_right _ hm)
    obtain ⟨fd, hfd⟩ := added_eq s.queue p timer clock
    refine ⟨hown.added ht clock, ?_, fun n hn => ?_⟩
    · rw [hfd]
      exact h.numbered
    · rw [hfd]
      rcases List.mem_append.1 hn with hn | hn
      · refine (h.delivered n hn).imp_right ?_
        rintro ⟨x, hx, hm⟩
        exact ⟨x, hx, fun hm' => hm (hp ▸ List.mem_cons_of_mem _ hm')⟩
      · exact Or.inr ⟨p, ⟨timer, ht, (List.mem_singleton.1 hn).symm⟩, hnd⟩
  | @addTimer p when_ repeat_ delta clock hu ha =>
    have hown := newTimer_owns h ha.1 when_ repeat_ delta
    obtain ⟨fd, hfd⟩ :=
      added_eq (s.newTimer p when_ repeat_ delta).queue p (s.fresh when_ repeat_ delta) clock
    refine ⟨hown.added (Function.update_self ..) clock, ?_, fun n hn => ?_⟩
    · rw [hfd]
      exact h.numbered.alloc ha.2.1 rfl rfl
    · rw [hfd]
      rcases List.mem_append.1 hn with hn | hn
      · exact (h.delivered n hn).alloc ha.1 (s.fresh when_ repeat_ delta) (fun x hx => Or.inl hx)
      · refine Or.inr ⟨p, ⟨_, Function.update_self .., (List.mem_singleton.1 hn).symm⟩,
          fun hm => ?_⟩
        obtain ⟨timer, ht⟩ := h.owns.get (List.mem_append_right _ hm)
        rw [ha.1] at ht
        cases ht
  | @cancel id q hu hc =>
    cases hc with
    | erased ht hn hm =>
      exact ⟨h.owns.erased ht hm, h.numbered.free ht, fun n hn => (h.delivered n hn).freed ht⟩
    | marked => exact ⟨h.owns.congr rfl rfl rfl, h.numbered, h.delivered⟩
    | ignored => exact ⟨h.owns, h.numbered, h.delivered⟩
  | handleRead hidle hown =>
    refine ⟨?_, h.numbered, h.delivered⟩
    rw [held, hidle] at hown
    exact hown
  | startCallback hp ht =>
    refine ⟨?_, h.numbered, h.delivered⟩
    have hown := h.owns
    rw [held, hp] at hown
    simpa [held, TimerPhase.batch] using hown
  | endCallbacks hp =>
    refine ⟨?_, h.numbered, h.delivered⟩
    have hown := h.owns
    rw [held, hp, TimerPhase.batch, List.append_nil] at hown
    exact hown.congr rfl rfl rfl
  | @restart now e todo timer hp ht hr =>
    have hown := h.owns
    rw [held_resetting hp] at hown
    refine ⟨hown.restarted timer now, h.numbered.assign ht rfl rfl, fun n hn => ?_⟩
    refine (h.delivered n hn).imp_right ?_
    rintro ⟨x, hx, hpend⟩
    exact ⟨x, holds_restarted ht now hx, hpend⟩
  | delete hp ht hr =>
    have hown := h.owns
    rw [held_resetting hp] at hown
    exact ⟨hown.freed, h.numbered.free ht, fun n hn => (h.delivered n hn).freed ht⟩
  | @endReset now clock hp =>
    obtain ⟨fd, hfd⟩ := s.queue.rearmed_eq clock
    rw [hfd]
    refine ⟨?_, h.numbered, h.delivered⟩
    have hown := h.owns
    rw [held, hp] at hown
    exact hown.congr rfl rfl rfl

end TimerLoop

def timerLoop : Machine TimerLoop TimerOp TimerQueue.Fault where
  enabled := TimerLoop.Enabled
  exec := TimerLoop.exec

instance (s : TimerLoop) (op : TimerOp) : Decidable (timerLoop.enabled s op) :=
  inferInstanceAs (Decidable (s.Enabled op))

namespace TimerLoop

open TimerQueue

theorem safe : timerLoop.Safe Inv := by
  intro s op h he
  obtain ⟨s', hx, hs⟩ := exec_step h he
  exact ⟨s', hx, step_inv h hs⟩

/-- The places a timer can be in. -/
inductive Place where
  | timers
  | batch
  | deleted

def At (s : TimerLoop) (n : Nat) : Place → Prop
  | .timers => ∃ p ∈ s.queue.addrs, s.queue.Holds p n
  | .batch => ∃ p ∈ s.phase.batch.map Entry.addr, s.queue.Holds p n
  | .deleted => n ∈ s.queue.deleted

variable {s : TimerLoop}

theorem Inv.holds_unique (h : s.Inv) {p p' : Addr} {n : Nat} (hp : s.queue.Holds p n)
    (hp' : s.queue.Holds p' n) : p = p' := by
  obtain ⟨t, ht, hn⟩ := hp
  obtain ⟨t', ht', hn'⟩ := hp'
  have := h.numbered.unique (h.numbered.live p t ht) (h.numbered.live p' t' ht')
    (hn.trans hn'.symm)
  exact congrArg (fun c => c.1.1) this

theorem Inv.not_deleted (h : s.Inv) {p : Addr} {n : Nat} (hp : s.queue.Holds p n) :
    n ∉ s.queue.deleted := by
  obtain ⟨t, ht, rfl⟩ := hp
  exact h.numbered.dead p t ht

theorem Inv.at_unique (h : s.Inv) {n : Nat} {place place' : Place} (ha : s.At n place)
    (ha' : s.At n place') : place = place' := by
  have hdisj : ∀ p p', p ∈ s.queue.addrs → s.queue.Holds p n →
      p' ∈ s.phase.batch.map Entry.addr → s.queue.Holds p' n → False := by
    intro p p' hm hp hm' hp'
    rw [h.holds_unique hp hp'] at hm
    exact h.owns.not_mem_addrs (List.mem_append_left _ hm') hm
  cases place with
  | timers =>
    obtain ⟨p, hm, hp⟩ := ha
    cases place' with
    | timers => rfl
    | batch =>
      obtain ⟨p', hm', hp'⟩ := ha'
      exact (hdisj p p' hm hp hm' hp').elim
    | deleted => exact absurd ha' (h.not_deleted hp)
  | batch =>
    obtain ⟨p, hm, hp⟩ := ha
    cases place' with
    | timers =>
      obtain ⟨p', hm', hp'⟩ := ha'
      exact (hdisj p' p hm' hp' hm hp).elim
    | batch => rfl
    | deleted => exact absurd ha' (h.not_deleted hp)
  | deleted =>
    cases place' with
    | timers =>
      obtain ⟨p, -, hp⟩ := ha'
      exact absurd ha (h.not_deleted hp)
    | batch =>
      obtain ⟨p, -, hp⟩ := ha'
      exact absurd ha (h.not_deleted hp)
    | deleted => rfl

theorem Inv.at_exists (h : s.Inv) {n : Nat} (hn : n ∈ s.given) : ∃ place, s.At n place := by
  rcases h.delivered n hn with hd | ⟨p, hp, hpend⟩
  · exact ⟨.deleted, hd⟩
  · obtain ⟨t, ht, -⟩ := id hp
    have hm : p ∈ s.pointers := (h.owns.owned.live p).2 (by rw [ht]; nofun)
    rcases List.mem_append.1 hm with hm | hm
    · exact ⟨.timers, p, hm, hp⟩
    · rcases List.mem_append.1 hm with hm | hm
      · exact ⟨.batch, p, hm, hp⟩
      · exact absurd hm hpend

/-- **Ownership of timers.** In every state of every run, `timers_` and `activeTimers_` have the
same timers, entered under their current expirations; every timer given to `addTimerInLoop` is in
exactly one place, and none is deleted twice; the pointers kept are exactly the live timers, each
kept once; and whatever happens next is executed without a failed assertion, a use after free or a
double free. -/
theorem timer_ownership {ops : List TimerOp} {s : TimerLoop} (h : timerLoop.Run .init ops s) :
    s.queue.timers.size = s.queue.activeTimers.size ∧
    (∀ p n, toLex (p, n) ∈ s.queue.activeTimers ↔
      s.queue.Denotes (p, n) ∧ ∃ t, toLex (t, p) ∈ s.queue.timers) ∧
    (∀ t p, toLex (t, p) ∈ s.queue.timers →
      ∃ timer, s.queue.heap p = some timer ∧ timer.expiration = t) ∧
    (∀ n ∈ s.given, ∃! place, s.At n place) ∧
    s.queue.deleted.Nodup ∧
    s.pointers.Nodup ∧
    (∀ p, p ∈ s.pointers ↔ s.queue.heap p ≠ none) ∧
    ∀ op, s.Enabled op → ∃ s', s.exec op = .ok s' := by
  obtain ⟨hi, hnext⟩ := safe.run h Inv.init
  have hx := hi.owns.indexed
  refine ⟨hx.sizes, fun p n => ?_, hx.current, fun n hn => ?_, hi.numbered.deleted_nodup,
    hi.owns.owned.nodup, hi.owns.owned.live, hnext⟩
  · rw [hx.mem_active]
    constructor
    · rintro ⟨timer, ht, hn, hm⟩
      exact ⟨⟨timer, ht, hn⟩, _, hm⟩
    · rintro ⟨⟨timer, ht, hn⟩, t, hm⟩
      obtain ⟨timer', ht', rfl⟩ := hx.current t p hm
      obtain rfl : timer = timer' := Option.some.inj (ht.symm.trans ht')
      exact ⟨timer, ht, hn, hm⟩
  · obtain ⟨place, hplace⟩ := hi.at_exists hn
    exact ⟨place, hplace, fun place' h' => hi.at_unique h' hplace⟩

/-- Timers 1 (repeating), 2 and 3 expire together; the callback of 1 cancels 1 and 2, and adds a
timer. The address of 2 is used again after it. -/
theorem timer_ownership_sample :
    ∃ s, timerLoop.Run .init
      [.addTimer 16 5 true 10 ⟨1, 1⟩, .create 32 5 false 0, .runFunctor ⟨1, 2⟩,
        .addTimer 48 6 false 0 ⟨2, 2⟩, .handleRead 7 7, .startCallback, .cancel (16, 1),
        .cancel (32, 2), .addTimer 64 9 false 0 ⟨8, 8⟩, .startCallback, .startCallback,
        .endCallbacks, .resetEntry, .resetEntry, .create 32 20 false 0, .resetEntry,
        .endReset ⟨8, 8⟩, .runFunctor ⟨9, 9⟩] s ∧
      s.given = [1, 2, 3, 4, 5] ∧ s.queue.deleted = [1, 2, 3] ∧ ∃! place, s.At 5 place := by
  refine (Machine.Run.of_replay timerLoop .init _ (fun s => (s.given, s.queue.deleted))
    ([1, 2, 3, 4, 5], [1, 2, 3]) (by decide +kernel)).imp fun s ⟨hrun, hs⟩ => ⟨hrun, ?_⟩
  obtain ⟨hgiven, hdeleted⟩ := Prod.mk.inj hs
  exact ⟨hgiven, hdeleted, (timer_ownership hrun).2.2.2.1 5 (by simp [hgiven])⟩

end TimerLoop
end TinyMuduo

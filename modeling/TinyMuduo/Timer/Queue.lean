import TinyMuduo.Lib.Heap
import TinyMuduo.Timer.Model

/-!
# Timer.Queue

The operations of `TimerQueue` on its two sets. `Indexed` relates the entries of `timers_` to
`activeTimers_`; `Owns q held` adds that the pointers in `timers_` and those in `held` (the batch of
`handleRead` and the queued functors) are all the live timers, each once. For every operation there
is an equation for its result, so without a fault, and a lemma that it keeps `Owns`.
-/

namespace TinyMuduo

/-- The `Timer*` of an entry. -/
def Entry.addr (e : Entry) : Addr := (ofLex e).2

namespace TimerQueue

open Result

/-- Timer `n` lives at `p`. -/
def Holds (q : TimerQueue) (p : Addr) (n : Nat) : Prop :=
  ∃ timer, q.heap p = some timer ∧ timer.number = n

/-- The id is that of a live timer. -/
def Denotes (q : TimerQueue) (id : TimerId) : Prop :=
  ∃ timer, q.heap id.1 = some timer ∧ timer.sequence = id.2

instance (q : TimerQueue) (p : Addr) (n : Nat) : Decidable (q.Holds p n) :=
  match h : q.heap p with
  | some timer => decidable_of_iff (timer.number = n) (by simp [Holds, h])
  | none => isFalse (by simp [Holds, h])

instance (q : TimerQueue) (id : TimerId) : Decidable (q.Denotes id) :=
  match h : q.heap id.1 with
  | some timer => decidable_of_iff (timer.sequence = id.2) (by simp [Denotes, h])
  | none => isFalse (by simp [Denotes, h])

/-- The timers in `entries` are those in `active`, and each is entered under its expiration. -/
structure Indexed (heap : Addr → Option Timer) (entries : List Entry)
    (active : OrdSet ActiveTimer) : Prop where
  nodup : (entries.map Entry.addr).Nodup
  current : ∀ t p, toLex (t, p) ∈ entries → ∃ timer, heap p = some timer ∧ timer.expiration = t
  mem_active : ∀ p n, toLex (p, n) ∈ active ↔
    ∃ timer, heap p = some timer ∧ timer.sequence = n ∧ toLex (timer.expiration, p) ∈ entries
  sizes : entries.length = active.size

namespace Indexed

variable {heap : Addr → Option Timer} {entries entries' : List Entry}
  {active : OrdSet ActiveTimer} {p : Addr} {timer : Timer}

theorem mem_addr {t : Timestamp} (h : toLex (t, p) ∈ entries) : p ∈ entries.map Entry.addr :=
  List.mem_map_of_mem h

theorem perm (h : Indexed heap entries active) (hp : entries'.Perm entries) :
    Indexed heap entries' active where
  nodup := (hp.map Entry.addr).nodup_iff.2 h.nodup
  current t p hm := h.current t p (hp.mem_iff.1 hm)
  mem_active p n := by simpa only [hp.mem_iff] using h.mem_active p n
  sizes := hp.length_eq.trans h.sizes

/-- A write to a block that is not in `entries`. -/
theorem update (h : Indexed heap entries active) (hp : p ∉ entries.map Entry.addr)
    (v : Option Timer) : Indexed (Function.update heap p v) entries active where
  nodup := h.nodup
  current t x hm := by
    have hx : x ≠ p := fun hx => hp (hx ▸ mem_addr hm)
    simpa [hx] using h.current t x hm
  mem_active x n := by
    rw [h.mem_active x n]
    by_cases hx : x = p
    · subst hx
      constructor
      · rintro ⟨timer, -, -, hm⟩
        exact absurd (mem_addr hm) hp
      · rintro ⟨timer, -, -, hm⟩
        exact absurd (mem_addr hm) hp
    · simp [hx]
  sizes := h.sizes

theorem not_active (h : Indexed heap entries active) (hp : p ∉ entries.map Entry.addr) (n : Int) :
    toLex (p, n) ∉ active := by
  intro hm
  obtain ⟨timer, -, -, hm⟩ := (h.mem_active p n).1 hm
  exact hp (mem_addr hm)

theorem cons (h : Indexed heap entries active) (hp : p ∉ entries.map Entry.addr)
    (ht : heap p = some timer) :
    Indexed heap (toLex (timer.expiration, p) :: entries)
      (active.insert (toLex (p, timer.sequence))).1 where
  nodup := List.nodup_cons.2 ⟨hp, h.nodup⟩
  current t x hm := by
    rcases List.mem_cons.1 hm with heq | hm
    · obtain ⟨rfl, rfl⟩ := Prod.mk.inj (toLex.injective heq)
      exact ⟨timer, ht, rfl⟩
    · exact h.current t x hm
  mem_active x n := by
    rw [OrdSet.mem_insert, h.mem_active x n]
    constructor
    · rintro (heq | ⟨timer', ht', hn, hm⟩)
      · obtain ⟨rfl, rfl⟩ := Prod.mk.inj (toLex.injective heq)
        exact ⟨timer, ht, rfl, List.mem_cons_self⟩
      · exact ⟨timer', ht', hn, List.mem_cons_of_mem _ hm⟩
    · rintro ⟨timer', ht', hn, hm⟩
      rcases List.mem_cons.1 hm with heq | hm
      · obtain ⟨-, rfl⟩ := Prod.mk.inj (toLex.injective heq)
        obtain rfl : timer = timer' := Option.some.inj (ht.symm.trans ht')
        exact Or.inl (by rw [hn])
      · exact Or.inr ⟨timer', ht', hn, hm⟩
  sizes := by
    rw [OrdSet.size_insert (h.not_active hp _), List.length_cons, h.sizes]

theorem head_active {e : Entry} (h : Indexed heap (e :: entries) active)
    (ht : heap e.addr = some timer) : toLex (e.addr, timer.sequence) ∈ active := by
  obtain ⟨timer', ht', he⟩ := h.current (ofLex e).1 e.addr List.mem_cons_self
  obtain rfl : timer = timer' := Option.some.inj (ht.symm.trans ht')
  exact (h.mem_active _ _).2 ⟨timer, ht, rfl, by rw [he]; exact List.mem_cons_self⟩

theorem uncons {e : Entry} (h : Indexed heap (e :: entries) active)
    (ht : heap e.addr = some timer) :
    Indexed heap entries (active.erase (toLex (e.addr, timer.sequence))).1 := by
  obtain ⟨he, hnd⟩ := List.nodup_cons.1 h.nodup
  refine ⟨hnd, fun t x hm => h.current t x (List.mem_cons_of_mem _ hm), fun x n => ?_, ?_⟩
  · rw [OrdSet.mem_erase, h.mem_active x n]
    constructor
    · rintro ⟨hne, timer', ht', hn, hm⟩
      rcases List.mem_cons.1 hm with heq | hm
      · obtain rfl : x = e.addr := congrArg Entry.addr heq
        obtain rfl : timer = timer' := Option.some.inj (ht.symm.trans ht')
        exact absurd (by rw [hn]) hne
      · exact ⟨timer', ht', hn, hm⟩
    · rintro ⟨timer', ht', hn, hm⟩
      refine ⟨fun heq => ?_, timer', ht', hn, List.mem_cons_of_mem _ hm⟩
      obtain ⟨rfl, -⟩ := Prod.mk.inj (toLex.injective heq)
      exact he (mem_addr hm)
  · have := OrdSet.size_erase (h.head_active ht)
    have hs := h.sizes
    rw [List.length_cons] at hs
    omega

end Indexed

/-- The pointers in `timers_`. -/
def addrs (q : TimerQueue) : List Addr := q.timers.elems.map Entry.addr

structure Owns (q : TimerQueue) (held : List Addr) : Prop where
  owned : Heap.Owned q.heap (q.addrs ++ held)
  indexed : Indexed q.heap q.timers.elems q.activeTimers

variable {q q' : TimerQueue} {held held' : List Addr} {p : Addr} {timer : Timer}

theorem Owns.perm (h : q.Owns held) (hp : held'.Perm held) : q.Owns held' :=
  ⟨h.owned.perm (hp.append_left _), h.indexed⟩

/-- A step that leaves the timers and the two sets alone. -/
theorem Owns.congr (h : q.Owns held) (hh : q'.heap = q.heap) (ht : q'.timers = q.timers)
    (ha : q'.activeTimers = q.activeTimers) : q'.Owns held :=
  ⟨by rw [addrs, hh, ht]; exact h.owned, by rw [hh, ht, ha]; exact h.indexed⟩

theorem Owns.get (h : q.Owns held) (hp : p ∈ held) : ∃ timer, q.heap p = some timer :=
  h.owned.get (List.mem_append_right _ hp)

/-- A timer that is held is not in `timers_`. -/
theorem Owns.not_mem_addrs (h : q.Owns held) (hp : p ∈ held) : p ∉ q.addrs := fun ha =>
  List.disjoint_of_nodup_append h.owned.nodup ha hp

theorem Owns.not_mem_timers (h : q.Owns held) (hp : p ∈ held) (t : Timestamp) :
    toLex (t, p) ∉ q.timers := fun hm => h.not_mem_addrs hp (Indexed.mem_addr hm)

theorem Owns.deref (h : q.heap p = some timer) : q.deref p = .ok timer := by
  rw [TimerQueue.deref, h]

theorem Owns.sizesEqual (h : q.Owns held) : q.sizesEqual = .ok () :=
  ensure_pos h.indexed.sizes _

/-! ## `new` and `restart` -/

theorem Owns.alloc (h : q.Owns held) (hp : q.heap p = none) (timer : Timer) :
    { q with heap := Function.update q.heap p (some timer) }.Owns (p :: held) := by
  have hpa : p ∉ q.addrs := fun ha =>
    (h.owned.live p).1 (List.mem_append_left _ ha) hp
  exact ⟨(h.owned.alloc hp timer).perm List.perm_middle, h.indexed.update hpa _⟩

theorem Owns.assign (h : q.Owns held) (hp : p ∈ held) (timer : Timer) :
    { q with heap := Function.update q.heap p (some timer) }.Owns held :=
  ⟨h.owned.assign (List.mem_append_right _ hp) timer,
    h.indexed.update (h.not_mem_addrs hp) _⟩

/-! ## `insert` and `addTimerInLoop` -/

/-- The queue after `insert`. -/
def inserted (q : TimerQueue) (p : Addr) (timer : Timer) : TimerQueue :=
  { q with
    timers := (q.timers.insert (toLex (timer.expiration, p))).1
    activeTimers := (q.activeTimers.insert (toLex (p, timer.sequence))).1 }

theorem Owns.inserted (h : q.Owns (p :: held)) (ht : q.heap p = some timer) :
    (q.inserted p timer).Owns held := by
  have hp : p ∈ p :: held := List.mem_cons_self
  have hperm := OrdSet.perm_insert (h.not_mem_timers hp timer.expiration)
  refine ⟨h.owned.perm ?_, ?_⟩
  · exact ((hperm.map Entry.addr).append_right held).trans List.perm_middle.symm
  · exact (h.indexed.cons (h.not_mem_addrs hp) ht).perm hperm

theorem insert_eq (h : q.Owns (p :: held)) (ht : q.heap p = some timer) :
    q.insert p = .ok (q.inserted p timer, q.isEarliest timer.expiration) := by
  have hp : p ∈ p :: held := List.mem_cons_self
  have hnew := OrdSet.insert_new (h.not_mem_timers hp timer.expiration)
  have hnew' := OrdSet.insert_new (h.indexed.not_active (h.not_mem_addrs hp) timer.sequence)
  have hsizes := (h.inserted ht).sizesEqual
  unfold TimerQueue.inserted at hsizes
  simp only [insert, h.sizesEqual, Owns.deref ht, ok_bind, check, ensure_pos hnew,
    ensure_pos hnew', hsizes]
  rfl

/-- The queue after `addTimerInLoop`. -/
def added (q : TimerQueue) (p : Addr) (timer : Timer) (clock : Clock) : TimerQueue :=
  if q.isEarliest timer.expiration then (q.inserted p timer).resetTimerfd timer.expiration clock
  else q.inserted p timer

theorem addTimerInLoop_eq (h : q.Owns (p :: held)) (ht : q.heap p = some timer) (clock : Clock) :
    q.addTimerInLoop p clock = .ok (q.added p timer clock) := by
  have ht' : (q.inserted p timer).heap p = some timer := ht
  rw [addTimerInLoop, insert_eq h ht, ok_bind, added]
  cases q.isEarliest timer.expiration with
  | true => simp only [if_true, Owns.deref ht', ok_bind]
  | false => rfl

/-- `addTimerInLoop` adds the entry; the rest of it is about the timerfd. -/
theorem added_eq (q : TimerQueue) (p : Addr) (timer : Timer) (clock : Clock) :
    ∃ fd, q.added p timer clock = { q.inserted p timer with timerfd := fd } := by
  unfold added
  split
  · exact ⟨_, rfl⟩
  · exact ⟨_, rfl⟩

theorem Owns.added (h : q.Owns (p :: held)) (ht : q.heap p = some timer) (clock : Clock) :
    (q.added p timer clock).Owns held := by
  obtain ⟨fd, hfd⟩ := added_eq q p timer clock
  rw [hfd]
  exact (h.inserted ht).congr rfl rfl rfl

/-! ## `delete` and `cancelInLoop` -/

/-- The queue after `delete p`. -/
def freed (q : TimerQueue) (p : Addr) (timer : Timer) : TimerQueue :=
  { q with
    heap := Function.update q.heap p none
    deleted := q.deleted ++ [timer.number] }

theorem delete_eq (ht : q.heap p = some timer) : q.delete p = .ok (q.freed p timer) := by
  rw [delete, ht]
  rfl

theorem Owns.freed (h : q.Owns (p :: held)) : (q.freed p timer).Owns held :=
  ⟨(h.owned.perm List.perm_middle.symm).free,
    h.indexed.update (h.not_mem_addrs List.mem_cons_self) none⟩

/-- The queue after `cancelInLoop` of a timer in `timers_`. -/
def erased (q : TimerQueue) (p : Addr) (timer : Timer) : TimerQueue :=
  { q with
    timers := (q.timers.erase (toLex (timer.expiration, p))).1
    activeTimers := (q.activeTimers.erase (toLex (p, timer.sequence))).1 }.freed p timer

theorem Owns.erased (h : q.Owns held) (ht : q.heap p = some timer)
    (hm : toLex (timer.expiration, p) ∈ q.timers) : (q.erased p timer).Owns held := by
  have hperm := OrdSet.perm_erase hm
  refine Owns.freed ⟨h.owned.perm ?_, ?_⟩
  · refine List.perm_middle.trans ?_
    exact ((hperm.map Entry.addr).append_right held).symm
  · exact (h.indexed.perm hperm.symm).uncons (e := toLex (timer.expiration, p)) ht

theorem eraseTimer_eq {id : TimerId} (ht : q.heap id.1 = some timer)
    (hn : timer.sequence = id.2) (hm : toLex (timer.expiration, id.1) ∈ q.timers) :
    q.eraseTimer id = .ok (q.erased id.1 timer) := by
  have hdel : { q with timers := (q.timers.erase (toLex (timer.expiration, id.1))).1 }.delete id.1 =
      .ok (freed _ id.1 timer) := delete_eq ht
  simp only [eraseTimer, Owns.deref ht, ok_bind, check, ensure_pos (OrdSet.erase_found hm), hdel,
    erased, hn]
  rfl

/-- The queue after `cancelInLoop`. -/
inductive Cancelled (q : TimerQueue) (id : TimerId) : TimerQueue → Prop where
  | erased {timer : Timer} : q.heap id.1 = some timer → timer.sequence = id.2 →
      toLex (timer.expiration, id.1) ∈ q.timers → Cancelled q id (q.erased id.1 timer)
  | marked : toLex id ∉ q.activeTimers → q.callingExpiredTimers = true →
      Cancelled q id { q with cancelingTimers := (q.cancelingTimers.insert (toLex id)).1 }
  | ignored : toLex id ∉ q.activeTimers → q.callingExpiredTimers = false → Cancelled q id q

theorem Owns.cancelled {id : TimerId} (h : q.Owns held) (hc : q.Cancelled id q') :
    q'.Owns held := by
  cases hc with
  | erased ht _ hm => exact h.erased ht hm
  | marked => exact h.congr rfl rfl rfl
  | ignored => exact h

theorem cancelActive_eq (h : q.Owns held) (id : TimerId) :
    ∃ q', q.cancelActive id = .ok q' ∧ q.Cancelled id q' := by
  unfold cancelActive
  split
  next ha =>
    obtain ⟨timer, ht, hn, hm⟩ := (h.indexed.mem_active id.1 id.2).1 ha
    exact ⟨_, eraseTimer_eq ht hn hm, .erased ht hn hm⟩
  next ha =>
    split
    next hcalling => exact ⟨_, rfl, .marked ha hcalling⟩
    next hcalling => exact ⟨_, rfl, .ignored ha (by simpa using hcalling)⟩

theorem cancelInLoop_eq (h : q.Owns held) (id : TimerId) :
    ∃ q', q.cancelInLoop id = .ok q' ∧ q.Cancelled id q' := by
  obtain ⟨q', hq', hc⟩ := cancelActive_eq h id
  refine ⟨q', ?_, hc⟩
  simp only [cancelInLoop, h.sizesEqual, ok_bind, hq', (h.cancelled hc).sizesEqual]

/-! ## `getExpired` -/

theorem eraseActive_eq {expired rest : List Entry}
    (h : Indexed q.heap (expired ++ rest) q.activeTimers) :
    ∃ active, q.eraseActive expired = .ok { q with activeTimers := active } ∧
      Indexed q.heap rest active := by
  induction expired generalizing q with
  | nil => exact ⟨q.activeTimers, rfl, h⟩
  | cons e expired ih =>
    obtain ⟨timer, ht, -⟩ := h.current (ofLex e).1 e.addr List.mem_cons_self
    have hfound := OrdSet.erase_found (h.head_active ht)
    obtain ⟨active, hx, hi⟩ :=
      ih (q := { q with activeTimers := (q.activeTimers.erase (toLex (e.addr, timer.sequence))).1 })
        (h.uncons ht)
    refine ⟨active, ?_, hi⟩
    rw [eraseActive]
    unfold Entry.addr at ht hfound hx
    simp only [Owns.deref ht, ok_bind, check, ensure_pos hfound, hx]

theorem endNotExpired_eq (ha : ∀ p ∈ q.addrs, p < maxAddr) (now : Timestamp) :
    q.endNotExpired now = true := by
  unfold endNotExpired
  cases hb : (q.timers.above (sentry now)).begin? with
  | none => rfl
  | some e =>
    have hm := OrdSet.begin?_mem hb
    have hle : sentry now ≤ e := OrdSet.le_of_mem_above hm
    have hlt : e.addr < maxAddr := by
      refine ha _ (List.mem_map_of_mem ?_)
      exact (List.dropWhile_sublist _).subset hm
    rcases Prod.Lex.le_iff.1 hle with h | ⟨-, h⟩
    · exact decide_eq_true h
    · exact absurd hlt (not_lt.2 h)

/-- `getExpired` moves the entries up to `now` from the sets to the batch. -/
theorem getExpired_eq (h : q.Owns held) (ha : ∀ p ∈ q.addrs, p < maxAddr) (now : Timestamp) :
    ∃ active, q.getExpired now =
        .ok ({ q with timers := q.timers.above (sentry now), activeTimers := active },
          q.timers.below (sentry now)) ∧
      { q with timers := q.timers.above (sentry now), activeTimers := active }.Owns
        ((q.timers.below (sentry now)).map Entry.addr ++ held) := by
  have happ := q.timers.below_append_above (sentry now)
  have hsplit : Indexed q.heap
      (q.timers.below (sentry now) ++ (q.timers.above (sentry now)).elems) q.activeTimers := by
    rw [happ]
    exact h.indexed
  obtain ⟨active, hx, hi⟩ :=
    eraseActive_eq (q := { q with timers := q.timers.above (sentry now) }) hsplit
  have howns : { q with timers := q.timers.above (sentry now), activeTimers := active }.Owns
      ((q.timers.below (sentry now)).map Entry.addr ++ held) := by
    refine ⟨h.owned.perm ?_, hi⟩
    rw [addrs, addrs, ← happ, List.map_append, ← List.append_assoc]
    exact List.perm_append_comm.append_right held
  refine ⟨active, ?_, howns⟩
  simp only [getExpired, h.sizesEqual, ok_bind, check, ensure_pos (endNotExpired_eq ha now), hx,
    howns.sizesEqual]

theorem readTimerfd_eq (q : TimerQueue) (t : Timestamp) :
    ∃ fd, q.readTimerfd t = { q with timerfd := fd } := by
  unfold readTimerfd
  split
  · split
    · exact ⟨_, rfl⟩
    · exact ⟨_, rfl⟩
  · exact ⟨_, rfl⟩

/-- The queue when `handleRead` comes to its callbacks. -/
def handling (q : TimerQueue) (now : Timestamp) (active : OrdSet ActiveTimer)
    (fd : Option Armed) : TimerQueue :=
  { q with
    timers := q.timers.above (sentry now)
    activeTimers := active
    callingExpiredTimers := true
    cancelingTimers := .empty
    timerfd := fd }

theorem beginHandleRead_eq (h : q.Owns held) (ha : ∀ p ∈ q.addrs, p < maxAddr)
    (now readAt : Timestamp) :
    ∃ active fd, q.beginHandleRead now readAt =
        .ok (q.handling now active fd, q.timers.below (sentry now)) ∧
      (q.handling now active fd).Owns ((q.timers.below (sentry now)).map Entry.addr ++ held) := by
  obtain ⟨fd, hfd⟩ := q.readTimerfd_eq readAt
  obtain ⟨active, hx, hown⟩ := getExpired_eq (q := { q with timerfd := fd })
    (h.congr rfl rfl rfl) ha now
  refine ⟨active, fd, ?_, hown.congr rfl rfl rfl⟩
  rw [beginHandleRead, hfd, hx]
  rfl

/-! ## `reset` -/

/-- The queue after `restart` and `insert`. -/
def restarted (q : TimerQueue) (p : Addr) (timer : Timer) (now : Timestamp) : TimerQueue :=
  { q with heap := Function.update q.heap p (some (timer.restart now)) }.inserted p
    (timer.restart now)

theorem Owns.restarted (h : q.Owns (p :: held)) (timer : Timer) (now : Timestamp) :
    (q.restarted p timer now).Owns held :=
  (h.assign List.mem_cons_self _).inserted (Function.update_self ..)

theorem holds_restarted {x : Addr} {n : Nat} (ht : q.heap p = some timer) (now : Timestamp) :
    q.Holds x n → (q.restarted p timer now).Holds x n := by
  rintro ⟨t, htx, hn⟩
  by_cases hx : x = p
  · subst hx
    obtain rfl : timer = t := Option.some.inj (ht.symm.trans htx)
    exact ⟨_, Heap.update_eq_some.2 (Or.inl ⟨rfl, rfl⟩), hn⟩
  · exact ⟨t, Heap.update_eq_some.2 (Or.inr ⟨hx, htx⟩), hn⟩

/-- Which timers `reset` starts again. -/
def Restarts (q : TimerQueue) (p : Addr) (timer : Timer) : Prop :=
  timer.repeat_ ∧ toLex (p, timer.sequence) ∉ q.cancelingTimers

theorem resetEntry_restart {e : Entry} (h : q.Owns (e.addr :: held))
    (ht : q.heap e.addr = some timer) (hr : q.Restarts e.addr timer) (now : Timestamp) :
    q.resetEntry e now = .ok (q.restarted e.addr timer now) := by
  have hins := insert_eq (h.assign List.mem_cons_self (timer.restart now))
    (Function.update_self ..)
  rw [Restarts] at hr
  unfold Entry.addr at ht hr hins
  simp only [resetEntry, Owns.deref ht, ok_bind, if_pos hr, hins]
  rfl

theorem resetEntry_delete {e : Entry} (ht : q.heap e.addr = some timer)
    (hr : ¬ q.Restarts e.addr timer) (now : Timestamp) :
    q.resetEntry e now = .ok (q.freed e.addr timer) := by
  rw [Restarts] at hr
  unfold Entry.addr at ht hr
  simp only [resetEntry, Owns.deref ht, ok_bind, if_neg hr, delete_eq ht]
  rfl

/-- The queue after `reset`: the timerfd is set for the first entry, if there is one and it is
valid. -/
def rearmed (q : TimerQueue) (clock : Clock) : TimerQueue :=
  match q.timers.begin? with
  | some e => if (ofLex e).1.valid then q.resetTimerfd (ofLex e).1 clock else q
  | none => q

theorem rearm_eq (h : q.Owns held) (clock : Clock) : q.rearm clock = .ok (q.rearmed clock) := by
  unfold rearm rearmed
  cases hb : q.timers.begin? with
  | none => rfl
  | some e =>
    obtain ⟨timer, ht, he⟩ := h.indexed.current (ofLex e).1 (ofLex e).2 (OrdSet.begin?_mem hb)
    simp only [Owns.deref ht, ok_bind, he]
    split <;> rfl

theorem rearmed_eq (q : TimerQueue) (clock : Clock) :
    ∃ fd, q.rearmed clock = { q with timerfd := fd } := by
  unfold rearmed
  split
  · split
    · exact ⟨_, rfl⟩
    · exact ⟨_, rfl⟩
  · exact ⟨_, rfl⟩

end TimerQueue
end TinyMuduo

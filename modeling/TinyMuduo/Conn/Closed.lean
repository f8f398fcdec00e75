import TinyMuduo.Conn.Correct
import TinyMuduo.Conn.Watch

/-!
# Conn.Closed

A closed connection is not watched again, if its users and its poller behave.

* `Sound` — what the users of a connection must not do, and what `poll` must not report.
* `Inv` — a closed connection has no interest and is not watched; an open one is on the list of at
  most one callback that may close it.
* `closed_connection_watched` — what happens without `Sound`.
-/

namespace TinyMuduo

open TcpConnection

namespace Watch

open Result

variable {kind : PollerKind} {s s' : Watch} {c : TcpConnection} {rest : List Todo}

/-- `next` enters `handleClose`. -/
def Closes (s : Watch) (r : Buffer.Readv) : Prop :=
  s.todo.head? = some (.callback .close) ∨ s.todo.head? = some (.callback .read) ∧ r = .bytes []

instance (s : Watch) (r : Buffer.Readv) : Decidable (s.Closes r) :=
  inferInstanceAs (Decidable (_ ∨ _))

/-- An `EPollPoller` is watching: the interest set is not empty. -/
def Interested (kind : PollerKind) (s : Watch) : Prop :=
  kind = .epoll → s.conn.channel.isNoneEvent = false

instance (kind : PollerKind) (s : Watch) : Decidable (s.Interested kind) :=
  inferInstanceAs (Decidable (_ → _))

/-- Reading is neither started nor stopped on a closed connection; `poll` does not report a hang-up
for which both `handleClose` and `handleRead` are called; a connection of an `EPollPoller` is closed
while it has some interest; and an owner is not destroyed before a connection that is shutting
down. -/
def Sound (kind : PollerKind) (s : Watch) : WatchOp → Prop
  | .startRead | .stopRead => s.conn.state ≠ .kDisconnected
  | .poll revents =>
    ¬ (.close ∈ { s.conn.channel with revents := revents }.callbacks ∧
      .read ∈ { s.conn.channel with revents := revents }.callbacks)
  | .next r _ => s.Closes r → s.Interested kind
  | .functor i =>
    (s.pending[i]? = some .forceCloseInLoop → s.isOpen = true → s.Interested kind) ∧
    (s.pending[i]? = some .connectDestroyed → s.conn.state ≠ .kDisconnecting)
  | _ => True

instance (kind : PollerKind) (s : Watch) : (op : WatchOp) → Decidable (s.Sound kind op)
  | .startRead | .stopRead => inferInstanceAs (Decidable (_ ≠ _))
  | .poll _ => inferInstanceAs (Decidable (¬ _))
  | .next .. => inferInstanceAs (Decidable (_ → _))
  | .functor _ => inferInstanceAs (Decidable (_ ∧ _))
  | .connectEstablished | .send .. | .shutdown | .forceClose | .forceCloseWithDelay | .timer
  | .drop => isTrue trivial

/-! ## The invariant -/

structure Inv (kind : PollerKind) (s : Watch) : Prop where
  /-- A closed connection has no interest. It is watched only while it is being removed. -/
  closed : s.conn.state = .kDisconnected → s.conn.channel.isNoneEvent = true ∧
    (s.registered = .active → s.todo = [.remove])
  once : s.closes = 0 ∨ s.closes = 1 ∧ s.conn.state = .kDisconnected
  told : kind = .epoll → s.conn.channel.isNoneEvent = false → s.registered = .active
  listed : s.isOpen = true → s.registered ≠ .out
  ending : s.todo.countP Todo.ends ≤ 1
  ended : s.conn.state = .kDisconnected → s.todo.countP Todo.ends = 0
  removing : .remove ∈ s.todo → s.todo = [.remove] ∧ s.conn.state = .kDisconnected
  /-- Nothing happens before `connectEstablished`. -/
  fresh : s.conn.state = .kConnecting → s.todo = [] ∧ s.pending = [] ∧ s.delayed = 0 ∧
    s.registered = .out ∧ s.conn.channel.isNoneEvent = true

theorem isOpen_iff :
    s.isOpen = true ↔ s.conn.state = .kConnected ∨ s.conn.state = .kDisconnecting := by
  simp [isOpen]

theorem isOpen_of_ne (h : s.conn.state ≠ .kConnecting)
    (h' : s.conn.state ≠ .kDisconnected) : s.isOpen = true := by
  rw [isOpen_iff]
  cases hs : s.conn.state with
  | kDisconnected => exact absurd hs h'
  | kConnecting => exact absurd hs h
  | kConnected => exact .inl rfl
  | kDisconnecting => exact .inr rfl

theorem isOpen_ne (h : s.isOpen = true) :
    s.conn.state ≠ .kConnecting ∧ s.conn.state ≠ .kDisconnected := by
  rcases isOpen_iff.1 h with h | h <;> rw [h] <;> exact ⟨nofun, nofun⟩

theorem update_ne_out (kind : PollerKind) (none : Bool) (r : Registration) :
    r.update kind none ≠ .out := by
  cases r <;> cases kind <;> cases none <;> decide

theorem update_interested (r : Registration) : r.update .epoll false = .active := by
  cases r <;> rfl

/-- Told that nothing is of interest any more, the poller stops asking about a channel it asks
about; `poll(2)` never asks about a channel again that it was not asked about. -/
theorem update_none {r : Registration} (hout : r ≠ .out)
    (h : kind = .epoll → r = .active) : r.update kind true ≠ .active := by
  cases r with
  | out => exact absurd rfl hout
  | active => exact nofun
  | muted =>
    cases kind with
    | poll => exact nofun
    | epoll => exact nomatch h rfl

/-- On an open connection any interest may be changed. -/
theorem Inv.update (h : s.Inv kind) (hopen : s.isOpen = true)
    (hopen' : s'.isOpen = true) (htodo : s'.todo.countP Todo.ends ≤ 1) (hrem : .remove ∉ s'.todo)
    (hcloses : s'.closes = s.closes) (hreg : s'.registered = s.registered ∧
        s'.conn.channel.isNoneEvent = s.conn.channel.isNoneEvent ∨
      s'.registered = s.registered.update kind s'.conn.channel.isNoneEvent) : s'.Inv kind := by
  obtain ⟨hc, hd⟩ := isOpen_ne hopen'
  refine ⟨fun h' => absurd h' hd, ?_, ?_, ?_, htodo, fun h' => absurd h' hd,
    fun h' => absurd h' hrem, fun h' => absurd h' hc⟩
  · rcases h.once with h0 | ⟨-, h1⟩
    · exact .inl (hcloses.trans h0)
    · exact absurd h1 (isOpen_ne hopen).2
  · intro hk hnone
    rcases hreg with ⟨hr, hn⟩ | hr
    · rw [hr]
      exact h.told hk (hn ▸ hnone)
    · rw [hr, hnone, hk]
      exact update_interested _
  · intro _
    rcases hreg with ⟨hr, -⟩ | hr
    · rw [hr]
      exact h.listed hopen
    · rw [hr]
      exact update_ne_out _ _ _

theorem filterMap_ofEffect_settled {es : List Effect} (h : ∀ e ∈ es, e.settled = true) :
    es.filterMap Todo.ofEffect = [] := by
  refine List.filterMap_eq_nil_iff.2 fun e he => ?_
  have := h e he
  cases e <;> simp_all [Todo.ofEffect, Effect.settled]

theorem count_closeCallback_settled {es : List Effect} (h : ∀ e ∈ es, e.settled = true) :
    es.count .closeCallback = 0 := by
  rw [List.count_eq_zero]
  intro he
  exact nomatch h _ he

/-- What is left to do after a call of a user, or after the first thing on the list. -/
def Rest (s : Watch) (rest : List Todo) : Prop :=
  rest = s.todo ∨ ∃ cb, s.todo = .callback cb :: rest

theorem Rest.countP_le (h : s.Rest rest) :
    rest.countP Todo.ends ≤ s.todo.countP Todo.ends := by
  obtain rfl | ⟨cb, h⟩ := h
  · exact Nat.le_refl _
  · rw [h]
    exact (List.sublist_cons_self _ _).countP_le

theorem Rest.remove_mem (h : s.Rest rest) (hr : .remove ∈ rest) :
    .remove ∈ s.todo := by
  obtain rfl | ⟨cb, h⟩ := h
  · exact hr
  · rw [h]
    exact List.mem_cons_of_mem _ hr

/-- After the first thing on the list there is no `remove` on it. -/
theorem Rest.eq_todo (h : s.Rest rest)
    (hi : s.Inv kind) (hr : .remove ∈ s.todo) : rest = s.todo := by
  obtain rfl | ⟨cb, h⟩ := h
  · rfl
  · have := (hi.removing hr).1
    rw [h] at this
    cases this

theorem isWriting_of_none {ch : Channel} (h : ch.isNoneEvent = true) : ch.isWriting = false := by
  have he : ch.events = Channel.kNoneEvent := by simpa [Channel.isNoneEvent] using h
  rw [Channel.isWriting, he]
  rfl

theorem Inv.steady (h : s.Inv kind)
    {es : List Effect} (hs : Steady s.conn c es) (hrest : s.Rest rest)
    (hst : s.conn.state ≠ .kConnecting) : (s.after kind rest (c, es)).Inv kind := by
  have htodo : (s.after kind rest (c, es)).todo = rest := by
    rw [after, filterMap_ofEffect_settled hs.settled]
    rfl
  have hcloses : (s.after kind rest (c, es)).closes = s.closes := by
    rw [after, count_closeCallback_settled hs.settled]
    rfl
  have hstate : (s.after kind rest (c, es)).conn.state = s.conn.state := hs.state
  by_cases hd : s.conn.state = .kDisconnected
  · -- nothing of interest is left, so the interest set is not touched
    obtain ⟨hnone, hactive⟩ := h.closed hd
    obtain ⟨hch, hup⟩ : c.channel = s.conn.channel ∧ .updateChannel ∉ es := by
      rcases hs.channel with hsame | ⟨-, ⟨hne, -⟩ | ⟨hw, -⟩⟩
      · exact hsame
      · exact absurd hd hne
      · rw [isWriting_of_none hnone] at hw
        cases hw
    have hreg : (s.after kind rest (c, es)).registered = s.registered := if_neg hup
    have hch' : (s.after kind rest (c, es)).conn.channel = s.conn.channel := hch
    refine ⟨fun _ => ?_, ?_, ?_, ?_, ?_, fun _ => ?_, fun hr => ?_, fun hc => ?_⟩
    · rw [hch', hreg, htodo]
      refine ⟨hnone, fun ha => ?_⟩
      have hr : s.todo = [.remove] := hactive ha
      rw [hrest.eq_todo h (by simp [hr]), hr]
    · rw [hcloses, hstate]
      exact h.once
    · rw [hch', hreg]
      exact h.told
    · intro hopen
      exact absurd (hstate.trans hd) (isOpen_ne hopen).2
    · rw [htodo]
      exact Nat.le_trans hrest.countP_le h.ending
    · rw [htodo]
      exact Nat.eq_zero_of_le_zero (h.ended hd ▸ hrest.countP_le)
    · rw [htodo] at hr ⊢
      have hr' := hrest.remove_mem hr
      rw [hrest.eq_todo h hr']
      exact ⟨(h.removing hr').1, hstate.trans hd⟩
    · exact absurd (hstate.symm.trans hc) hst
  · have hopen := isOpen_of_ne hst hd
    refine h.update hopen (isOpen_of_ne (hstate ▸ hst) (hstate ▸ hd)) ?_ ?_ hcloses ?_
    · rw [htodo]
      exact Nat.le_trans hrest.countP_le h.ending
    · rw [htodo]
      exact fun hr => hd (h.removing (hrest.remove_mem hr)).2
    · rcases hs.channel with ⟨hch, hup⟩ | ⟨hup, -⟩
      · exact .inl ⟨if_neg hup, congrArg Channel.isNoneEvent hch⟩
      · exact .inr (if_pos hup)

/-- `handleClose`, entered with some interest if the poller is an `EPollPoller`. -/
theorem Inv.close (h : s.Inv kind) (hopen : s.isOpen = true)
    (hint : s.Interested kind) (hstate : c.state = .kDisconnected)
    (hch : c.channel = s.conn.channel.disableAll)
    (hends : rest.countP Todo.ends = 0) (hrem : .remove ∉ rest) :
    (s.after kind rest (c, [.updateChannel, .connectionCallback, .closeCallback])).Inv kind := by
  have hnone : c.channel.isNoneEvent = true := by rw [hch]; rfl
  have hreg : (s.after kind rest (c, [.updateChannel, .connectionCallback, .closeCallback])
      ).registered ≠ .active := by
    rw [after, if_pos (by simp), hnone]
    exact update_none (h.listed hopen) fun hk => h.told hk (hint hk)
  refine ⟨fun _ => ⟨hnone, fun ha => absurd ha hreg⟩, .inr ⟨?_, hstate⟩, fun _ hn => ?_,
    fun hopen' => absurd hstate (isOpen_ne hopen').2, ?_, fun _ => ?_, fun hr => ?_,
    fun hc => ?_⟩
  · rcases h.once with h0 | ⟨-, h1⟩
    · simp [after, h0]
    · exact absurd h1 (isOpen_ne hopen).2
  · exact nomatch hnone.symm.trans hn
  · change (Todo.closeCallback :: rest).countP Todo.ends ≤ 1
    simp [Todo.ends, hends]
  · change (Todo.closeCallback :: rest).countP Todo.ends = 0
    simp [Todo.ends, hends]
  · have hr' : .remove ∈ Todo.closeCallback :: rest := hr
    exact absurd ((List.mem_cons.1 hr').resolve_left nofun) hrem
  · exact nomatch hstate.symm.trans hc

/-- Steps of an established connection that touch neither `state_`, the channel nor the list. -/
theorem Inv.of_eq (h : s.Inv kind)
    (hc : s.conn.state ≠ .kConnecting) (hstate : s'.conn.state = s.conn.state)
    (hnone : s'.conn.channel.isNoneEvent = s.conn.channel.isNoneEvent)
    (hreg : s'.registered = s.registered) (htodo : s'.todo = s.todo)
    (hcloses : s'.closes = s.closes) : s'.Inv kind := by
  have hopen : s'.isOpen = s.isOpen := by rw [isOpen, isOpen, hstate]
  constructor
  · rw [hstate, hnone, hreg, htodo]; exact h.closed
  · rw [hcloses, hstate]; exact h.once
  · rw [hnone, hreg]; exact h.told
  · rw [hopen, hreg]; exact h.listed
  · rw [htodo]; exact h.ending
  · rw [hstate, htodo]; exact h.ended
  · rw [htodo, hstate]; exact h.removing
  · exact fun hc' => absurd (hstate.symm.trans hc') hc

/-- `setState(kDisconnecting)` on an open connection. -/
theorem Inv.disconnecting (h : s.Inv kind)
    (hopen : s.isOpen = true) (hstate : s'.conn.state = .kDisconnecting)
    (hnone : s'.conn.channel.isNoneEvent = s.conn.channel.isNoneEvent)
    (hreg : s'.registered = s.registered) (htodo : s'.todo = s.todo)
    (hcloses : s'.closes = s.closes) : s'.Inv kind := by
  refine h.update hopen (isOpen_iff.2 (.inr hstate)) ?_ ?_ hcloses (.inl ⟨hreg, hnone⟩)
  · rw [htodo]; exact h.ending
  · rw [htodo]; exact fun hr => (isOpen_ne hopen).2 (h.removing hr).2

theorem Inv.forceClose (h : s.Inv kind) :
    s.forceClose.Inv kind := by
  unfold Watch.forceClose
  split
  next hopen => exact h.disconnecting hopen rfl rfl rfl rfl rfl
  next => exact h

theorem Inv.forceCloseWithDelay (h : s.Inv kind) :
    s.forceCloseWithDelay.Inv kind := by
  unfold Watch.forceCloseWithDelay
  split
  next hopen => exact h.disconnecting hopen rfl rfl rfl rfl rfl
  next => exact h

theorem Inv.interest (h : s.Inv kind) (hopen : s.isOpen = true) (ch : Channel) (reading : Bool) :
    Inv kind { s.after kind s.todo ({ s.conn with channel := ch }, [.updateChannel]) with
      reading := reading } := by
  refine h.update hopen hopen h.ending ?_ rfl (.inr (by simp [after]))
  exact fun hr => (isOpen_ne hopen).2 (h.removing hr).2

theorem Inv.startReadInLoop (h : s.Inv kind)
    (hopen : s.isOpen = true) : (s.startReadInLoop kind).Inv kind := by
  unfold Watch.startReadInLoop
  split
  · exact h.interest hopen _ _
  · exact h

theorem Inv.stopReadInLoop (h : s.Inv kind)
    (hopen : s.isOpen = true) : (s.stopReadInLoop kind).Inv kind := by
  unfold Watch.stopReadInLoop
  split
  · exact h.interest hopen _ _
  · exact h

theorem Inv.shutdown (h : s.Inv kind) (hs : s.conn.shutdown.1 = true) :
    (s.after kind s.todo (s.conn.shutdown.2, s.conn.shutdown.2.shutdownInLoop)).Inv kind := by
  unfold TcpConnection.shutdown at hs ⊢
  split at hs
  next hst =>
    have hes := shutdownInLoop_settled { s.conn with state := .kDisconnecting }
    have hset := fun e he => (hes e he).1
    rw [if_pos hst]
    refine h.disconnecting (isOpen_iff.2 (.inl hst)) rfl rfl ?_ ?_ ?_
    · exact if_neg fun he => (hes _ he).2 rfl
    · rw [after, filterMap_ofEffect_settled hset]
      rfl
    · rw [after, count_closeCallback_settled hset]
      rfl
  next => cases hs

theorem firstWrite_settled (c : TcpConnection) (data : List Byte) (w : Write) :
    ∀ e ∈ (firstWrite c data w).effects, e.settled = true ∧ e ≠ .updateChannel := by
  have h : (firstWrite c data w).effects = (c.firstWrite data w).effects := by cases w <;> rfl
  rw [h]
  exact TcpConnection.firstWrite_settled c data w

theorem sendInLoop_steady {c c' : TcpConnection} {data : List Byte} {w : Write} {es : List Effect}
    (h : sendInLoop c data w = .ok (c', es)) : Steady c c' es := by
  unfold sendInLoop at h
  split at h
  next =>
    cases h
    exact steady_idle c
  next hst => exact finishSend_steady (firstWrite_settled c data w) hst h

theorem lift_eq_ok {α : Type} {x : Except Stop α} {a : α} (h : lift x = .ok a) : x = .ok a := by
  cases x with
  | ok b => exact congrArg Except.ok (Except.ok.inj h)
  | error e => cases h

theorem handleClose_eq {x : TcpConnection × List Effect} (h : c.handleClose = .ok x) :
    (c.state = .kConnected ∨ c.state = .kDisconnecting) ∧
      x = ({ c with state := .kDisconnected, channel := c.channel.disableAll },
        [.updateChannel, .connectionCallback, .closeCallback]) := by
  unfold handleClose at h
  split at h
  next hst =>
    cases h
    exact ⟨hst, rfl⟩
  next => cases h

theorem countP_ends (cbs : List Channel.Callback) :
    (cbs.map Todo.callback).countP Todo.ends = cbs.count .close + cbs.count .read := by
  induction cbs with
  | nil => rfl
  | cons cb cbs ih =>
    rw [List.map_cons, List.countP_cons, ih, List.count_cons, List.count_cons]
    cases cb <;> simp [Todo.ends] <;> omega

/-- Not both `handleClose` and `handleRead` are on the list of a dispatch. -/
theorem countP_callbacks {ch : Channel} (h : ¬ (.close ∈ ch.callbacks ∧ .read ∈ ch.callbacks)) :
    (ch.callbacks.map Todo.callback).countP Todo.ends ≤ 1 := by
  rw [countP_ends]
  have hclose : ch.callbacks.count .close ≤ 1 := ch.callbacks_sublist.count_le _
  have hread : ch.callbacks.count .read ≤ 1 := ch.callbacks_sublist.count_le _
  rw [← List.count_pos_iff, ← List.count_pos_iff] at h
  omega

/-- The first thing on the list is done, and it was not the removal. -/
theorem Inv.pop (h : s.Inv kind) {x : Todo}
    (htodo : s.todo = x :: rest) (hx : x ≠ .remove) (hconn : s'.conn = s.conn)
    (hreg : s'.registered = s.registered) (htodo' : s'.todo = rest)
    (hcloses : s'.closes = s.closes) : s'.Inv kind := by
  have hne : s.todo ≠ [.remove] := by
    rw [htodo]
    intro heq
    exact hx (List.cons.inj heq).1
  have hle : rest.countP Todo.ends ≤ s.todo.countP Todo.ends := by
    rw [htodo]
    exact (List.sublist_cons_self _ _).countP_le
  have hopen : s'.isOpen = s.isOpen := by rw [isOpen, isOpen, hconn]
  constructor
  · rw [hconn, hreg]
    exact fun hd => ⟨(h.closed hd).1, fun ha => absurd ((h.closed hd).2 ha) hne⟩
  · rw [hcloses, hconn]; exact h.once
  · rw [hconn, hreg]; exact h.told
  · rw [hopen, hreg]; exact h.listed
  · rw [htodo']; exact Nat.le_trans hle h.ending
  · rw [hconn, htodo']; exact fun hd => Nat.eq_zero_of_le_zero (h.ended hd ▸ hle)
  · intro hr
    rw [htodo'] at hr
    exact absurd (h.removing (by rw [htodo]; exact List.mem_cons_of_mem x hr)).1 hne
  · rw [hconn]
    intro hc
    have := (h.fresh hc).1
    rw [htodo] at this
    cases this

/-- What a step on the head of the list may rely on. -/
theorem Inv.head (h : s.Inv kind) {x : Todo} (htodo : s.todo = x :: rest) :
    s.conn.state ≠ .kConnecting ∧ (x ≠ .remove → .remove ∉ rest) ∧
      (x.ends = true → rest.countP Todo.ends = 0 ∧ s.isOpen = true) := by
  have hc : s.conn.state ≠ .kConnecting := by
    intro hc
    have := (h.fresh hc).1
    rw [htodo] at this
    cases this
  refine ⟨hc, fun hx hr => ?_, fun hx => ?_⟩
  · have := (h.removing (by rw [htodo]; exact List.mem_cons_of_mem x hr)).1
    rw [htodo] at this
    exact hx (List.cons.inj this).1
  · have hcount : s.todo.countP Todo.ends = rest.countP Todo.ends + 1 := by
      rw [htodo, List.countP_cons_of_pos hx]
    have := h.ending
    refine ⟨by omega, isOpen_of_ne hc fun hd => ?_⟩
    have := h.ended hd
    omega

theorem handleRead_end {x : TcpConnection × List Effect} (h : c.handleRead (.bytes []) = .ok x) :
    ∃ c', c'.state = .kDisconnected ∧ c'.channel = c.channel.disableAll ∧
      x = (c', [.updateChannel, .connectionCallback, .closeCallback]) := by
  obtain ⟨b, -, hb⟩ := returned_bind_ok h
  obtain ⟨-, rfl⟩ := handleClose_eq hb
  exact ⟨_, rfl, rfl, rfl⟩

theorem Inv.doNext {r : Buffer.Readv} {w : Write}
    (h : s.Inv kind) (hs : s.Closes r → s.Interested kind) (hx : s.doNext kind r w = .ok s') :
    s'.Inv kind := by
  cases htodo : s.todo with
  | nil =>
    simp only [Watch.doNext, htodo] at hx
    cases hx
    exact h
  | cons x rest =>
    obtain ⟨hc, hrem, hends⟩ := h.head htodo
    cases x with
    | callback cb =>
      have hrest : s.Rest rest := .inr ⟨cb, htodo⟩
      cases cb with
      | close =>
        simp only [Watch.doNext, htodo] at hx
        obtain ⟨x, hlift, hok⟩ := bind_eq_ok hx
        obtain ⟨hopen, rfl⟩ := handleClose_eq (lift_eq_ok hlift)
        cases hok
        exact h.close (isOpen_iff.2 hopen) (hs (.inl (by rw [htodo]; rfl))) rfl rfl
          (hends rfl).1 (hrem nofun)
      | error =>
        simp only [Watch.doNext, htodo] at hx
        cases hx
        exact h.pop htodo nofun rfl rfl rfl rfl
      | read =>
        simp only [Watch.doNext, htodo] at hx
        obtain ⟨x, hlift, hok⟩ := bind_eq_ok hx
        cases hok
        by_cases hr : r = .bytes []
        · subst hr
          obtain ⟨c', hstate, hch, rfl⟩ := handleRead_end (lift_eq_ok hlift)
          exact h.close (hends rfl).2 (hs (.inr ⟨by rw [htodo]; rfl, rfl⟩)) hstate hch
            (hends rfl).1 (hrem nofun)
        · exact h.steady (handleRead_steady hr (lift_eq_ok hlift)) hrest hc
      | write =>
        simp only [Watch.doNext, htodo] at hx
        obtain ⟨x, hlift, hok⟩ := bind_eq_ok hx
        cases hok
        exact h.steady (handleWrite_steady (lift_eq_ok hlift)) hrest hc
    | closeCallback =>
      simp only [Watch.doNext, htodo] at hx
      cases hx
      exact h.pop htodo nofun rfl rfl rfl rfl
    | remove =>
      obtain ⟨htodo', hd⟩ := h.removing (by rw [htodo]; exact List.mem_cons_self)
      obtain rfl : rest = [] := by
        rw [htodo] at htodo'
        exact (List.cons.inj htodo').2
      simp only [Watch.doNext, htodo] at hx
      obtain ⟨-, -, hok⟩ := bind_eq_ok hx
      cases hok
      refine ⟨fun _ => ⟨(h.closed hd).1, nofun⟩, h.once, fun hk hn => ?_, fun hopen => ?_,
        Nat.zero_le _, fun _ => rfl, nofun, fun hc' => absurd hc' hc⟩
      · exact nomatch (h.closed hd).1.symm.trans hn
      · exact absurd hd (isOpen_ne hopen).2

theorem connectDestroyed_eq (c : TcpConnection) (hne : c.state ≠ .kConnecting)
    (hd : c.state ≠ .kDisconnecting) :
    c.connectDestroyed = ({ c with state := .kDisconnected, channel := c.channel.disableAll },
        [.updateChannel, .connectionCallback, .removeChannel]) ∨
      c.state = .kDisconnected ∧ c.connectDestroyed = (c, [.removeChannel]) := by
  unfold connectDestroyed
  cases hs : c.state with
  | kConnected => exact .inl (if_pos rfl)
  | kDisconnected => exact .inr ⟨rfl, if_neg nofun⟩
  | kConnecting => exact absurd hs hne
  | kDisconnecting => exact absurd hs hd

/-- `connectDestroyed` has left the connection closed, with the removal to come. -/
theorem Inv.remove (h : s.Inv kind)
    (hstate : s'.conn.state = .kDisconnected) (hnone : s'.conn.channel.isNoneEvent = true)
    (htodo : s'.todo = [.remove]) (hcloses : s'.closes = s.closes) : s'.Inv kind := by
  refine ⟨fun _ => ⟨hnone, fun _ => htodo⟩, ?_, fun _ hn => ?_, fun hopen => ?_, ?_, fun _ => ?_,
    fun _ => ⟨htodo, hstate⟩, fun hc => ?_⟩
  · rw [hcloses]
    exact h.once.imp_right fun h1 => ⟨h1.1, hstate⟩
  · exact nomatch hnone.symm.trans hn
  · exact absurd hstate (isOpen_ne hopen).2
  · rw [htodo]
    exact Nat.zero_le _
  · rw [htodo]
    rfl
  · exact nomatch hstate.symm.trans hc

theorem Inv.runFunctor {i : Nat} (h : s.Inv kind)
    (htodo : s.todo = []) (hi : i < s.pending.length) (hs : s.Sound kind (.functor i))
    (hx : s.runFunctor kind i = .ok s') : s'.Inv kind := by
  have hc : s.conn.state ≠ .kConnecting := by
    intro hc
    rw [(h.fresh hc).2.1] at hi
    exact absurd hi (Nat.not_lt_zero i)
  -- the functor is taken out of the queue first
  have h' : Inv kind { s with pending := s.pending.eraseIdx i } := h.of_eq hc rfl rfl rfl rfl rfl
  have hget := List.getElem?_eq_getElem hi
  cases hp : s.pending[i] with
  | forceCloseInLoop =>
    rw [hp] at hget
    simp only [Watch.runFunctor, hget] at hx
    split at hx
    next hopen =>
      obtain ⟨x, hlift, hok⟩ := bind_eq_ok hx
      obtain ⟨-, rfl⟩ := handleClose_eq (lift_eq_ok hlift)
      cases hok
      rw [htodo]
      exact h'.close hopen (hs.1 hget hopen) rfl rfl rfl List.not_mem_nil
    next =>
      cases hx
      exact h'
  | connectDestroyed =>
    rw [hp] at hget
    simp only [Watch.runFunctor, hget, htodo] at hx
    cases hx
    rcases connectDestroyed_eq s.conn hc (hs.2 hget) with heq | ⟨hd, heq⟩
    · rw [heq]
      exact h'.remove rfl rfl rfl rfl
    · rw [heq]
      exact h'.remove hd (h.closed hd).1 rfl rfl

theorem Inv.connectEstablished (h : s.Inv kind)
    (hc : s.conn.state = .kConnecting) (hx : exec kind s .connectEstablished = .ok s') :
    s'.Inv kind := by
  have hest : s.conn.connectEstablished = .ok ({ s.conn with
      state := .kConnected, channel := s.conn.channel.enableReading },
      [.updateChannel, .connectionCallback]) := if_pos hc
  simp only [exec, hest] at hx
  cases hx
  obtain ⟨htodo, -, -, hout, -⟩ := h.fresh hc
  have hactive : s.registered.update kind s.conn.channel.enableReading.isNoneEvent = .active := by
    rw [hout]
    rfl
  refine ⟨nofun, ?_, fun _ _ => ?_, fun _ => ?_, ?_, nofun, fun hr => ?_, nofun⟩
  · rcases h.once with h0 | ⟨-, h1⟩
    · exact .inl h0
    · exact nomatch hc.symm.trans h1
  · simp [after, hactive]
  · simp [after, hactive]
  · change s.todo.countP Todo.ends ≤ 1
    exact h.ending
  · have hr' : .remove ∈ s.todo := hr
    rw [htodo] at hr'
    cases hr'

/-- `poll` reports an open connection only. -/
theorem Inv.poll (h : s.Inv kind) (htodo : s.todo = [])
    (hactive : s.registered = .active) (revents : Events) (hs : s.Sound kind (.poll revents)) :
    Inv kind { s with
      conn := { s.conn with channel := { s.conn.channel with revents := revents } }
      todo := { s.conn.channel with revents := revents }.callbacks.map .callback } := by
  have hc : s.conn.state ≠ .kConnecting := by
    intro hc
    rw [(h.fresh hc).2.2.2.1] at hactive
    cases hactive
  have hd : s.conn.state ≠ .kDisconnected := by
    intro hd
    have := (h.closed hd).2 hactive
    rw [htodo] at this
    cases this
  refine h.update (isOpen_of_ne hc hd) (isOpen_of_ne hc hd) (countP_callbacks hs) ?_ rfl
    (.inl ⟨rfl, rfl⟩)
  intro hr
  obtain ⟨cb, -, hcb⟩ := List.mem_map.1 hr
  cases hcb

/-- Every step that meets `Sound` keeps the invariant. -/
theorem sound_keeps_inv (kind : PollerKind) :
    ((machine kind).under (Sound kind)).Keeps (Inv kind) := by
  rintro s op s' h ⟨he, hs⟩ hx
  cases op with
  | connectEstablished => exact h.connectEstablished he hx
  | send data w =>
    simp only [Machine.under, machine, exec] at hx
    split at hx
    next hst =>
      obtain ⟨x, hlift, hok⟩ := bind_eq_ok hx
      cases hok
      exact h.steady (sendInLoop_steady (lift_eq_ok hlift)) (.inl rfl) he
    next => cases hx; exact h
  | shutdown =>
    simp only [Machine.under, machine, exec] at hx
    split at hx
    next hsh => cases hx; exact h.shutdown hsh
    next => cases hx; exact h
  | forceClose => cases hx; exact h.forceClose
  | forceCloseWithDelay => cases hx; exact h.forceCloseWithDelay
  | startRead => cases hx; exact h.startReadInLoop (isOpen_of_ne he hs)
  | stopRead => cases hx; exact h.stopReadInLoop (isOpen_of_ne he hs)
  | timer =>
    cases hx
    have hc : s.conn.state ≠ .kConnecting := by
      intro hc
      have hpos : 0 < s.delayed := he
      have := (h.fresh hc).2.2.1
      omega
    have h' : Inv kind { s with delayed := s.delayed - 1 } := h.of_eq hc rfl rfl rfl rfl rfl
    exact h'.forceClose
  | poll revents =>
    cases hx
    exact h.poll he.1 he.2 revents hs
  | next r w => exact h.doNext hs hx
  | functor i => exact h.runFunctor he.1 he.2 hs hx
  | drop =>
    cases hx
    exact h.of_eq he.1 rfl rfl rfl rfl rfl

/-! ## How a step can stop -/

/-- The step stopped because of the bytes it moves, and not on an assertion about `state_` or the
interest set. -/
def Fault.ofBytes : Fault → Bool
  | .stop s => s.ofBytes
  | .assertNoneEvent => false

theorem lift_bind_error {α : Type} {x : Except Stop α} {f : α → Watch} {e : Fault}
    (h : (do let a ← lift x; .ok (f a)) = Except.error e) :
    ∃ st, x = .error st ∧ e = .stop st := by
  cases x with
  | ok a => cases h
  | error st =>
    cases h
    exact ⟨st, rfl, rfl⟩

theorem handleClose_open {st : Stop}
    (hopen : c.state = .kConnected ∨ c.state = .kDisconnecting) : c.handleClose ≠ .error st := by
  rw [handleClose, if_pos hopen]
  intro hx
  cases hx

theorem Inv.doNext_error {r : Buffer.Readv} {w : Write}
    (h : s.Inv kind) {e : Fault} (hx : s.doNext kind r w = .error e) : e.ofBytes = true := by
  cases htodo : s.todo with
  | nil =>
    simp only [Watch.doNext, htodo] at hx
    cases hx
  | cons x rest =>
    obtain ⟨-, -, hends⟩ := h.head htodo
    cases x with
    | callback cb =>
      cases cb with
      | close =>
        simp only [Watch.doNext, htodo] at hx
        obtain ⟨st, hst, -⟩ := lift_bind_error hx
        exact absurd hst (handleClose_open (isOpen_iff.1 (hends rfl).2))
      | error =>
        simp only [Watch.doNext, htodo] at hx
        cases hx
      | read =>
        simp only [Watch.doNext, htodo] at hx
        obtain ⟨st, hst, rfl⟩ := lift_bind_error hx
        exact handleRead_error (fun _ => isOpen_iff.1 (hends rfl).2) hst
      | write =>
        simp only [Watch.doNext, htodo] at hx
        obtain ⟨st, hst, rfl⟩ := lift_bind_error hx
        exact handleWrite_error hst
    | closeCallback =>
      simp only [Watch.doNext, htodo] at hx
      cases hx
    | remove =>
      have hd := (h.removing (by rw [htodo]; exact List.mem_cons_self)).2
      simp only [Watch.doNext, htodo, ensure_pos (h.closed hd).1] at hx
      cases hx

theorem runFunctor_error {i : Nat} {e : Fault} :
    s.runFunctor kind i ≠ .error e := by
  unfold Watch.runFunctor
  intro hx
  split at hx
  · cases hx
  · split at hx
    next hopen =>
      obtain ⟨st, hst, -⟩ := lift_bind_error hx
      exact handleClose_open (isOpen_iff.1 hopen) hst
    next => cases hx
  · cases hx

theorem Inv.exec_error {op : WatchOp} (h : s.Inv kind)
    (he : s.Enabled op) {e : Fault} (hx : exec kind s op = .error e) : e.ofBytes = true := by
  cases op with
  | connectEstablished =>
    obtain ⟨st, hst, -⟩ := lift_bind_error hx
    have hc : s.conn.state = .kConnecting := he
    rw [TcpConnection.connectEstablished, if_pos hc] at hst
    cases hst
  | send data w =>
    simp only [exec] at hx
    split at hx
    · obtain ⟨st, hst, rfl⟩ := lift_bind_error hx
      unfold sendInLoop at hst
      split at hst
      · cases hst
      · exact finishSend_error hst
    · cases hx
  | shutdown =>
    simp only [exec] at hx
    split at hx <;> cases hx
  | next r w => exact h.doNext_error hx
  | functor i => exact absurd hx runFunctor_error
  | forceClose | forceCloseWithDelay | startRead | stopRead | timer | poll revents | drop =>
    cases hx

theorem inv_init (hc : c.state = .kConnecting)
    (hnone : c.channel.isNoneEvent = true) : (init c).Inv kind := by
  have hc' : (init c).conn.state = .kConnecting := hc
  refine ⟨fun hd => ?_, .inl rfl, fun _ hn => ?_, fun hopen => ?_, Nat.zero_le _, fun _ => rfl,
    fun hr => ?_, fun _ => ⟨rfl, rfl, rfl, rfl, hnone⟩⟩
  · exact nomatch hc'.symm.trans hd
  · exact nomatch hnone.symm.trans hn
  · exact absurd hc' (isOpen_ne hopen).1
  · cases hr

/-- **A closed connection is not watched again.** In every run whose steps meet `Sound`,
`handleClose` is run at most once, the interest set is empty from then on, and no step fails an
assertion: neither that of `handleClose` nor that of `Channel::remove` in `connectDestroyed`. -/
theorem closed_connection_run (kind : PollerKind) {c : TcpConnection}
    (hc : c.state = .kConnecting) (hnone : c.channel.isNoneEvent = true) {ops : List WatchOp}
    {s : Watch} (hr : ((machine kind).under (Sound kind)).Run (init c) ops s) :
    s.closes ≤ 1 ∧ (0 < s.closes → s.conn.channel.isNoneEvent = true) ∧
      ∀ op, s.Enabled op → s.Sound kind op → ∀ e, exec kind s op = .error e →
        e.ofBytes = true := by
  have h : s.Inv kind := hr.keeps (sound_keeps_inv kind) (inv_init hc hnone)
  refine ⟨?_, fun hpos => ?_, fun op he _ e hx => h.exec_error he hx⟩
  · rcases h.once with h0 | ⟨h1, -⟩
    · omega
    · omega
  · rcases h.once with h0 | ⟨-, hd⟩
    · omega
    · exact (h.closed hd).1

/-- A connection is forced to close, its owner hands it to `connectDestroyed`, and the channel
leaves the poller. -/
theorem closed_connection_run_forced :
    ∃ s, ((machine .epoll).under (Sound .epoll)).Run (init (.new 5 false))
        [.connectEstablished, .forceClose, .functor 0, .shutdown, .next (.bytes []) (.count 0),
          .functor 0, .next (.bytes []) (.count 0)] s ∧
      (s.closes, s.registered) = (1, .out) ∧ s.conn.channel.isNoneEvent = true := by
  obtain ⟨s, hr, hobs⟩ := Machine.Run.of_replay ((machine .epoll).under (Sound .epoll))
    (init (.new 5 false))
    [.connectEstablished, .forceClose, .functor 0, .shutdown, .next (.bytes []) (.count 0),
      .functor 0, .next (.bytes []) (.count 0)]
    (fun s : Watch => (s.closes, s.registered)) (1, .out) (by decide +kernel)
  have hpos : 0 < s.closes := by
    rw [(Prod.mk.inj hobs).1]
    exact Nat.one_pos
  exact ⟨s, hr, hobs, (closed_connection_run .epoll rfl rfl hr).2.1 hpos⟩

/-- How a step fails. -/
def fault? (kind : PollerKind) (s : Watch) (op : WatchOp) : Option Fault :=
  match exec kind s op with
  | .ok _ => none
  | .error e => some e

theorem run_fault {ops : List WatchOp} {op : WatchOp} {e : Fault}
    (h : ((machine kind).replay s ops).map (fault? kind · op) = some (some e)) :
    ∃ s', (machine kind).Run s ops s' ∧ s'.fault? kind op = some e :=
  Machine.Run.of_replay (machine kind) s ops (fault? kind · op) (some e) h

/-- Four ways to watch a closed connection: `startRead` in the callback that tells it is down;
`stopRead` and then `forceClose` with an `EPollPoller`, when the peer resets; `POLLHUP` with
`POLLPRI` and without `POLLIN`, and the end of the stream; an owner that is destroyed while the
connection is shutting down. -/
theorem closed_connection_watched :
    (∃ s, (machine .epoll).Run (init (.new 5 false))
        [.connectEstablished, .forceClose, .functor 0, .startRead, .next (.bytes []) (.count 0),
          .functor 0] s ∧
      s.fault? .epoll (.next (.bytes []) (.count 0)) = some .assertNoneEvent) ∧
    (∃ s, (machine .epoll).Run (init (.new 5 false))
        [.connectEstablished, .stopRead, .forceClose, .functor 0, .next (.bytes []) (.count 0),
          .poll POLLHUP] s ∧
      s.fault? .epoll (.next (.bytes []) (.count 0)) = some (.stop (.assertion .closeState))) ∧
    (∃ s, (machine .epoll).Run (init (.new 5 false))
        [.connectEstablished, .poll (POLLHUP ||| POLLPRI), .next (.bytes []) (.count 0),
          .next (.bytes []) (.count 0)] s ∧
      s.fault? .epoll (.next (.bytes []) (.count 0)) = some (.stop (.assertion .closeState))) ∧
    ∃ s, (machine .epoll).Run (init (.new 5 false))
        [.connectEstablished, .shutdown, .drop, .functor 0] s ∧
      s.fault? .epoll (.next (.bytes []) (.count 0)) = some .assertNoneEvent :=
  ⟨run_fault (by decide +kernel), run_fault (by decide +kernel), run_fault (by decide +kernel),
    run_fault (by decide +kernel)⟩

end Watch
end TinyMuduo

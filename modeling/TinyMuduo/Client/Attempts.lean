import Mathlib.Data.List.Perm.Basic
import TinyMuduo.Client.Connector

/-!
# Client.Attempts

One connection attempt at a time.

What will call `startInLoop` later is a token: a retry timer, a queued functor, a call of `start` in
another thread. `start` and `stop` alone do not keep the number of tokens at one, and nothing waits
for the old channel to be reset; `Sound` says when both are in order.

* `Inv` — there is at most one token, and only in `kDisconnected`; the channel is in the poller
  exactly in `kConnecting`; a channel that was removed has one `resetChannel` in the queue, before
  any `startInLoop`; the descriptor of the channel is the only one that is neither closed nor handed
  over.
* `connector_run` — no assertion fails, and at most one attempt is in progress.
* `start_stop_start_fails` — what happens without `Sound`.
-/

namespace TinyMuduo
namespace Connector

open Result

variable {s s' : Connector}

/-- What will call `startInLoop`. -/
def tokens (s : Connector) : Nat :=
  s.timers + (s.pending.count .startInLoop + s.calls.count .startInLoop)

/-- `start` is called when the connector is disconnected and nothing else will start it. What starts
it in the loop thread at once, a call or a retry timer, comes when no channel is left to reset. -/
def Sound (s : Connector) : Op → Prop
  | .start _ => s.state = .kDisconnected ∧ s.tokens = 0 ∧ .resetChannel ∉ s.pending
  | .callStart => s.state = .kDisconnected ∧ s.tokens = 0
  | .restart _ | .timer _ => .resetChannel ∉ s.pending
  | _ => True

instance (s : Connector) : (op : Op) → Decidable (s.Sound op)
  | .start _ | .callStart => inferInstanceAs (Decidable (_ ∧ _))
  | .restart _ | .timer _ => inferInstanceAs (Decidable (¬ _))
  | .stop | .callStop | .push _ | .functor _ | .poll _ _ | .next _ _ => isTrue trivial

/-- Neither closed nor handed over. -/
def Socket.inProgress (k : Socket) : Bool := decide (k.closed = 0 ∧ k.passed = 0)

/-- A channel that is no longer in the poller. -/
def stale : Option Link → Nat
  | some ⟨_, false⟩ => 1
  | some ⟨_, true⟩ | none => 0

/-- No `startInLoop` stands before a `resetChannel`. -/
def InOrder (fs : List Functor) : Prop :=
  fs.Pairwise fun f g => f = .startInLoop → g ≠ .resetChannel

structure Inv (s : Connector) : Prop where
  token : s.tokens ≤ 1
  idle : 0 < s.tokens → s.state = .kDisconnected
  connecting : s.state = .kConnecting ↔ ∃ fd, s.channel = some ⟨fd, true⟩
  reset : s.pending.count .resetChannel = stale s.channel
  order : InOrder s.pending
  attempts : ∀ i k, s.sockets[i]? = some k → (k.inProgress = true ↔ s.channel = some ⟨i, true⟩)
  calling : .resetChannel ∉ s.calls
  dispatch : s.todo.Sublist [.error, .write]
  handling : s.todo ≠ [] → s.state ≠ .kConnected ∧ s.channel ≠ none

theorem inv_init : init.Inv := by
  refine ⟨Nat.zero_le _, nofun, ⟨nofun, fun ⟨_, h⟩ => nomatch h⟩, rfl, List.Pairwise.nil, ?_,
    List.not_mem_nil, List.nil_sublist _, fun h => absurd rfl h⟩
  intro i k hk
  cases hk

/-! ## What a socket function does -/

@[simp] theorem retry_state (s : Connector) (fd : Nat) : (s.retry fd).state = .kDisconnected := by
  unfold retry retryLater
  split <;> rfl

@[simp] theorem retry_channel (s : Connector) (fd : Nat) : (s.retry fd).channel = s.channel := by
  unfold retry retryLater
  split <;> rfl

@[simp] theorem retry_sockets (s : Connector) (fd : Nat) :
    (s.retry fd).sockets = (s.close fd).sockets := by
  unfold retry retryLater
  split <;> rfl

@[simp] theorem retry_todo (s : Connector) (fd : Nat) : (s.retry fd).todo = s.todo := by
  unfold retry retryLater
  split <;> rfl

@[simp] theorem retry_pending (s : Connector) (fd : Nat) : (s.retry fd).pending = s.pending := by
  unfold retry retryLater
  split <;> rfl

@[simp] theorem retry_calls (s : Connector) (fd : Nat) : (s.retry fd).calls = s.calls := by
  unfold retry retryLater
  split <;> rfl

theorem retry_timers_le (s : Connector) (fd : Nat) : (s.retry fd).timers ≤ s.timers + 1 := by
  unfold retry retryLater
  split
  · exact Nat.le_refl _
  · exact Nat.le_succ _

/-- If only `fd` was in progress, nothing is once it is closed or handed over. -/
theorem modify_settled {xs : List Socket} {fd : Nat} {g : Socket → Socket}
    (hg : ∀ k, (g k).inProgress = false)
    (hxs : ∀ (i : Nat) k, xs[i]? = some k → k.inProgress = true → i = fd) (i : Nat) (k : Socket)
    (hk : (xs.modify fd g)[i]? = some k) : k.inProgress = false := by
  rw [List.getElem?_modify] at hk
  obtain ⟨l, hl, rfl⟩ := Option.map_eq_some_iff.1 hk
  by_cases hfd : fd = i
  · simp [hfd, hg]
  · simp only [if_neg hfd]
    cases hp : l.inProgress with
    | false => rfl
    | true => exact absurd (hxs i l hl hp).symm hfd

theorem close_settled {fd : Nat}
    (hs : ∀ (i : Nat) k, s.sockets[i]? = some k → k.inProgress = true → i = fd) (i : Nat)
    (k : Socket) (hk : (s.close fd).sockets[i]? = some k) : k.inProgress = false :=
  modify_settled (fun k => by simp [Socket.inProgress]) hs i k hk

theorem pass_settled {fd : Nat}
    (hs : ∀ (i : Nat) k, s.sockets[i]? = some k → k.inProgress = true → i = fd) (i : Nat)
    (k : Socket) (hk : (s.pass fd).sockets[i]? = some k) : k.inProgress = false :=
  modify_settled (fun k => by simp [Socket.inProgress]) hs i k hk

namespace Inv

/-- Nothing is left of an earlier attempt. -/
theorem channel_eq_none (h : s.Inv) (hst : s.state ≠ .kConnecting)
    (hreset : .resetChannel ∉ s.pending) : s.channel = none := by
  have hcount := h.reset
  rw [List.count_eq_zero.2 hreset] at hcount
  cases hch : s.channel with
  | none => rfl
  | some c =>
    obtain ⟨fd, added⟩ := c
    cases added with
    | true => exact absurd (h.connecting.2 ⟨fd, hch⟩) hst
    | false =>
      rw [hch] at hcount
      cases hcount

theorem todo_eq_nil (h : s.Inv) (hch : s.channel = none) : s.todo = [] := by
  by_contra hne
  exact (h.handling hne).2 hch

/-- The queues change, and there are no more tokens than before. -/
theorem requeue (h : s.Inv) (hstate : s'.state = s.state)
    (hch : s'.channel = s.channel) (hsock : s'.sockets = s.sockets) (htodo : s'.todo = s.todo)
    (htok : s'.tokens ≤ s.tokens)
    (hreset : s'.pending.count .resetChannel = s.pending.count .resetChannel)
    (horder : InOrder s'.pending) (hcalls : .resetChannel ∉ s'.calls) : s'.Inv := by
  refine ⟨Nat.le_trans htok h.token, fun hpos => ?_, ?_, ?_, horder, ?_, hcalls, ?_, ?_⟩
  · rw [hstate]; exact h.idle (Nat.lt_of_lt_of_le hpos htok)
  · rw [hstate, hch]; exact h.connecting
  · rw [hreset, hch]; exact h.reset
  · rw [hsock, hch]; exact h.attempts
  · rw [htodo]; exact h.dispatch
  · rw [htodo, hstate, hch]; exact h.handling

/-- Of the sockets after `createNonblockingOrDie` only the new one is in progress. -/
theorem create_inProgress (h : s.Inv) (hch : s.channel = none) (i : Nat)
    (k : Socket) (hk : s.create.sockets[i]? = some k) :
    k.inProgress = true ↔ i = s.sockets.length := by
  simp only [create, List.getElem?_append] at hk
  split at hk
  next hi =>
    have hold := h.attempts i k hk
    rw [hch] at hold
    exact ⟨fun hp => (nomatch hold.1 hp), fun heq => absurd heq (Nat.ne_of_lt hi)⟩
  next hi =>
    rw [List.getElem?_singleton] at hk
    split at hk
    next hi' =>
      cases hk
      exact ⟨fun _ => by omega, fun _ => rfl⟩
    next => cases hk

/-- An attempt that failed at once: nothing is in progress, and a timer may be set. -/
theorem failed (h : s.Inv) (hch : s.channel = none) (htok : s.tokens = 0)
    (hstate : s'.state = .kDisconnected) (hch' : s'.channel = none)
    (hsock : ∀ (i : Nat) k, s'.sockets[i]? = some k → k.inProgress = false)
    (htodo : s'.todo = s.todo) (hpend : s'.pending = s.pending) (htimers : s'.timers ≤ s.timers + 1)
    (hcalls : s'.calls = s.calls) : s'.Inv := by
  unfold tokens at htok
  refine ⟨?_, fun _ => hstate, ?_, ?_, ?_, fun i k hk => ?_, ?_, ?_, ?_⟩
  · unfold tokens
    rw [hpend, hcalls]
    omega
  · rw [hstate, hch']
    exact ⟨nofun, fun ⟨_, h⟩ => nomatch h⟩
  · rw [hpend, hch', h.reset, hch]
  · rw [hpend]; exact h.order
  · rw [hsock i k hk, hch']
    exact ⟨nofun, nofun⟩
  · rw [hcalls]; exact h.calling
  · rw [htodo]; exact h.dispatch
  · rw [htodo, h.todo_eq_nil hch]
    exact fun hne => absurd rfl hne

/-- An attempt that is in progress. -/
theorem begun (h : s.Inv) (hch : s.channel = none) (htok : s.tokens = 0) :
    Inv { s.create with state := .kConnecting, channel := some ⟨s.sockets.length, true⟩ } := by
  have htodo := h.todo_eq_nil hch
  have hcount := h.reset
  rw [hch] at hcount
  refine ⟨h.token, fun hpos => ?_, ?_, hcount, h.order, fun i k hk => ?_, h.calling, h.dispatch,
    fun hne => absurd htodo hne⟩
  · have hpos' : 0 < s.tokens := hpos
    omega
  · exact ⟨fun _ => ⟨_, rfl⟩, fun _ => rfl⟩
  · rw [h.create_inProgress hch i k hk]
    exact ⟨fun heq => by rw [heq], fun heq => by cases heq; rfl⟩

theorem connectNow (h : s.Inv) (hst : s.state = .kDisconnected)
    (hch : s.channel = none) (htok : s.tokens = 0) (errno : Errno) :
    ∃ s', s.connectNow errno = .ok s' ∧ s'.Inv := by
  have hnew := fun i k hk => (h.create_inProgress hch i k hk).1
  unfold Connector.connectNow
  dsimp only
  split
  · refine ⟨_, ?_, h.begun hch htok⟩
    have hch' : s.create.channel = none := hch
    rw [Connector.connecting, ensure_pos hch', ok_bind]
  · split
    · refine ⟨_, rfl, h.failed hch htok (retry_state _ _) ?_ ?_ ?_ ?_ (retry_timers_le _ _) ?_⟩
      · rw [retry_channel]; exact hch
      · rw [retry_sockets]; exact close_settled hnew
      · rw [retry_todo]; rfl
      · rw [retry_pending]; rfl
      · rw [retry_calls]; rfl
    · exact ⟨_, rfl, h.failed hch htok hst hch (close_settled hnew) rfl rfl (Nat.le_succ _) rfl⟩

/-- `startInLoop` on a connector at rest. -/
theorem startInLoop (h : s.Inv) (hst : s.state = .kDisconnected)
    (hch : s.channel = none) (htok : s.tokens = 0) (errno : Errno) :
    ∃ s', s.startInLoop errno = .ok s' ∧ s'.Inv := by
  rw [Connector.startInLoop, ensure_pos hst, ok_bind]
  split
  · exact h.connectNow hst hch htok errno
  · exact ⟨s, rfl, h⟩

theorem tokens_eq_zero (h : s.Inv) (hst : s.state ≠ .kDisconnected) :
    s.tokens = 0 := by
  by_contra hne
  exact hst (h.idle (Nat.pos_of_ne_zero hne))

/-- The attempt in progress ends: its channel leaves the poller and will be reset. -/
theorem ended (h : s.Inv) {fd : Nat} (hst : s.state = .kConnecting)
    (hch : s.channel = some ⟨fd, true⟩) (hstate : s'.state ≠ .kConnecting)
    (hch' : s'.channel = some ⟨fd, false⟩) (hpend : s'.pending = s.pending ++ [.resetChannel])
    (hsock : ∀ (i : Nat) k, s'.sockets[i]? = some k → k.inProgress = false)
    (hcalls : s'.calls = s.calls)
    (htimers : s'.timers = 0 ∨ s'.timers = 1 ∧ s'.state = .kDisconnected)
    (hdisp : s'.todo.Sublist [.error, .write]) (htodo : s'.todo ≠ [] → s'.state ≠ .kConnected) :
    s'.Inv := by
  have htok := h.tokens_eq_zero (hst.trans_ne nofun)
  unfold tokens at htok
  have htok' : s'.tokens = s'.timers := by
    unfold tokens
    rw [hpend, hcalls, List.count_append, List.count_singleton]
    simp
    omega
  refine ⟨?_, fun hpos => ?_, ?_, ?_, ?_, fun i k hk => ?_, ?_, hdisp, fun hne => ?_⟩
  · rcases htimers with h0 | ⟨h1, -⟩
    · omega
    · omega
  · rcases htimers with h0 | ⟨-, hd⟩
    · omega
    · exact hd
  · rw [hch']
    exact ⟨fun hc => absurd hc hstate, fun ⟨_, hc⟩ => nomatch hc⟩
  · rw [hpend, List.count_append, h.reset, hch, hch']
    rfl
  · -- nothing in the queue starts the connector
    have hnot : .startInLoop ∉ s.pending := List.count_eq_zero.1 (by omega)
    rw [hpend]
    refine List.pairwise_append.2 ⟨h.order, List.pairwise_singleton _ _, fun f hf g _ heq => ?_⟩
    exact absurd (heq ▸ hf) hnot
  · rw [hsock i k hk, hch']
    exact ⟨nofun, nofun⟩
  · rw [hcalls]; exact h.calling
  · exact ⟨htodo hne, by rw [hch']; nofun⟩

/-- In `kConnecting` there is a channel, and its descriptor is the only one in progress. -/
theorem channel_of_connecting (h : s.Inv) (hst : s.state = .kConnecting) :
    ∃ fd, s.channel = some ⟨fd, true⟩ ∧
      ∀ (i : Nat) k, s.sockets[i]? = some k → k.inProgress = true → i = fd := by
  obtain ⟨fd, hch⟩ := h.connecting.1 hst
  refine ⟨fd, hch, fun i k hk hp => ?_⟩
  have hi := (h.attempts i k hk).1 hp
  rw [hch] at hi
  cases hi
  rfl

end Inv

/-- What `removeAndResetChannel` leaves. -/
def removed (s : Connector) (fd : Nat) : Connector :=
  { s with channel := some ⟨fd, false⟩, pending := s.pending ++ [.resetChannel] }

theorem removeAndResetChannel_eq {fd : Nat} {added : Bool}
    (hch : s.channel = some ⟨fd, added⟩) : s.removeAndResetChannel = .ok (s.removed fd, fd) := by
  rw [removeAndResetChannel, hch]
  rfl

namespace Inv

/-- `removeAndResetChannel` and `retry`; `stopInLoop` sets the state before. -/
theorem retried (h : s.Inv) {fd : Nat} (hst : s.state = .kConnecting)
    (hch : s.channel = some ⟨fd, true⟩)
    (hfd : ∀ (i : Nat) k, s.sockets[i]? = some k → k.inProgress = true → i = fd) (st : States) :
    (({ s with state := st }.removed fd).retry fd).Inv := by
  have htok := h.tokens_eq_zero (hst.trans_ne nofun)
  unfold tokens at htok
  have hle : (({ s with state := st }.removed fd).retry fd).timers ≤ s.timers + 1 :=
    retry_timers_le _ fd
  refine h.ended hst hch ?_ ?_ ?_ ?_ ?_ ?_ ?_ ?_
  · rw [retry_state]; exact nofun
  · rw [retry_channel]; rfl
  · rw [retry_pending]; rfl
  · rw [retry_sockets]; exact close_settled hfd
  · rw [retry_calls]; rfl
  · rw [retry_state]
    have hone := Nat.le_one_iff_eq_zero_or_eq_one.1 (Nat.le_trans hle (by omega))
    exact hone.imp_right fun h1 => ⟨h1, rfl⟩
  · rw [retry_todo]; exact h.dispatch
  · rw [retry_state]; exact nofun

theorem handleError (h : s.Inv) : ∃ s', s.handleError = .ok s' ∧ s'.Inv := by
  unfold Connector.handleError
  split
  next hst =>
    obtain ⟨fd, hch, hfd⟩ := h.channel_of_connecting hst
    exact ⟨_, by rw [removeAndResetChannel_eq hch]; rfl, h.retried hst hch hfd s.state⟩
  next => exact ⟨s, rfl, h⟩

theorem stopInLoop (h : s.Inv) : ∃ s', s.stopInLoop = .ok s' ∧ s'.Inv := by
  unfold Connector.stopInLoop
  split
  next hst =>
    obtain ⟨fd, hch, hfd⟩ := h.channel_of_connecting hst
    have hch' : ({ s with state := .kDisconnected } : Connector).channel = some ⟨fd, true⟩ := hch
    exact ⟨_, by rw [removeAndResetChannel_eq hch']; rfl, h.retried hst hch hfd .kDisconnected⟩
  next => exact ⟨s, rfl, h⟩

/-- The socket is connected: it is handed over, or closed when the connector was stopped. -/
theorem connected (h : s.Inv) {fd : Nat} (hst : s.state = .kConnecting)
    (hch : s.channel = some ⟨fd, true⟩)
    (hfd : ∀ (i : Nat) k, s.sockets[i]? = some k → k.inProgress = true → i = fd)
    (htodo : s.todo = []) :
    (if (s.removed fd).connect then { s.removed fd with state := .kConnected }.pass fd
      else { s.removed fd with state := .kConnected }.close fd).Inv := by
  have htok := h.tokens_eq_zero (hst.trans_ne nofun)
  unfold tokens at htok
  have htimers : s.timers = 0 := by omega
  split
  · exact h.ended hst hch nofun rfl rfl (pass_settled hfd) rfl (.inl htimers) h.dispatch
      (fun hne => absurd htodo hne)
  · exact h.ended hst hch nofun rfl rfl (close_settled hfd) rfl (.inl htimers) h.dispatch
      (fun hne => absurd htodo hne)

theorem handleWrite (h : s.Inv) (hst : s.state ≠ .kConnected) (htodo : s.todo = [])
    (soError : Errno) (selfConnect : Bool) :
    ∃ s', s.handleWrite soError selfConnect = .ok s' ∧ s'.Inv := by
  unfold Connector.handleWrite
  split
  next hconn =>
    obtain ⟨fd, hch, hfd⟩ := h.channel_of_connecting hconn
    rw [removeAndResetChannel_eq hch, ok_bind]
    dsimp only
    split
    · exact ⟨_, rfl, h.retried hconn hch hfd s.state⟩
    · split
      · exact ⟨_, rfl, h.retried hconn hch hfd s.state⟩
      · exact ⟨_, rfl, h.connected hconn hch hfd htodo⟩
  next hconn =>
    have hdis : s.state = .kDisconnected := by
      cases hs : s.state with
      | kDisconnected => rfl
      | kConnecting => exact absurd hs hconn
      | kConnected => exact absurd hs hst
    exact ⟨s, by rw [ensure_pos hdis]; rfl, h⟩

/-! ## One step -/

/-- The callbacks left after the first one was taken. -/
theorem dispatched (h : s.Inv) {c : Callback} {cs : List Callback}
    (htodo : s.todo = c :: cs) : Inv { s with todo := cs } := by
  have hne : s.todo ≠ [] := by
    rw [htodo]
    exact nofun
  have hsub := h.dispatch
  rw [htodo] at hsub
  exact ⟨h.token, h.idle, h.connecting, h.reset, h.order, h.attempts, h.calling,
    (List.sublist_cons_self c cs).trans hsub, fun _ => h.handling hne⟩

theorem next (h : s.Inv) (soError : Errno) (selfConnect : Bool) :
    ∃ s', s.exec (.next soError selfConnect) = .ok s' ∧ s'.Inv := by
  unfold exec
  dsimp only
  split
  next => exact ⟨s, rfl, h⟩
  next cs htodo => exact (h.dispatched htodo).handleError
  next cs htodo =>
    -- the write callback is the last one
    have hcs : cs = [] := by
      have hsub := h.dispatch
      rw [htodo] at hsub
      cases hsub with
      | cons _ hsub => exact List.sublist_nil.1 (List.cons_sublist_cons.1 hsub)
    refine (h.dispatched htodo).handleWrite (h.handling ?_).1 hcs soError selfConnect
    rw [htodo]
    exact nofun

theorem poll (h : s.Inv) (hadded : ∃ c ∈ s.channel, c.added = true) (error write : Bool) :
    Inv { s with todo := (if error then [.error] else []) ++ if write then [.write] else [] } := by
  obtain ⟨⟨fd, added⟩, hc, hadd⟩ := hadded
  cases hadd
  have hch : s.channel = some ⟨fd, true⟩ := hc
  have hst := h.connecting.2 ⟨fd, hch⟩
  have hsub : ∀ e w : Bool, ((if e then [Callback.error] else []) ++
      if w then [Callback.write] else []).Sublist [.error, .write] := by decide
  exact ⟨h.token, h.idle, h.connecting, h.reset, h.order, h.attempts, h.calling, hsub error write,
    fun _ => ⟨fun hc => (nomatch hst.symm.trans hc), fun hn => (nomatch hch.symm.trans hn)⟩⟩

/-- The channel that is destroyed has left the poller. -/
theorem resetChannel (h : s.Inv) (htodo : s.todo = []) {fs : List Functor}
    (hpend : s.pending = .resetChannel :: fs) :
    ∃ s', { s with pending := fs }.resetChannel = .ok s' ∧ s'.Inv := by
  have hreset := h.reset
  have horder := h.order
  rw [hpend, List.count_cons_self] at hreset
  rw [hpend] at horder
  obtain ⟨fd, hch⟩ : ∃ fd, s.channel = some ⟨fd, false⟩ := by
    cases hc : s.channel with
    | none => rw [hc] at hreset; cases hreset
    | some c =>
      obtain ⟨fd, added⟩ := c
      cases added with
      | true => rw [hc] at hreset; cases hreset
      | false => exact ⟨fd, rfl⟩
  have hadded : ∀ c ∈ s.channel, c.added = false := by
    intro c hc
    cases hch.symm.trans hc
    rfl
  rw [hch] at hreset
  refine ⟨_, by rw [Connector.resetChannel, ensure_pos hadded]; rfl, ?_⟩
  have htok : tokens { s with pending := fs, channel := none } = s.tokens := by
    unfold tokens
    rw [hpend, List.count_cons_of_ne (by decide)]
  refine ⟨?_, fun hpos => ?_, ?_, ?_, (List.pairwise_cons.1 horder).2, fun i k hk => ?_, h.calling,
    h.dispatch, fun hne => absurd htodo hne⟩
  · rw [htok]; exact h.token
  · exact h.idle (htok ▸ hpos)
  · refine ⟨fun hst => ?_, fun ⟨_, hc⟩ => nomatch hc⟩
    obtain ⟨_, hc⟩ := h.connecting.1 hst
    cases hch.symm.trans hc
  · exact Nat.succ.inj hreset
  · refine ⟨fun hp => ?_, fun hc => nomatch hc⟩
    cases hch.symm.trans ((h.attempts i k hk).1 hp)

/-- A functor other than `resetChannel` leaves the queue. -/
theorem popped (h : s.Inv) {f : Functor} {fs : List Functor}
    (hpend : s.pending = f :: fs) (hf : f ≠ .resetChannel) : Inv { s with pending := fs } := by
  have horder := h.order
  rw [hpend] at horder
  refine h.requeue rfl rfl rfl rfl ?_ ?_ (List.pairwise_cons.1 horder).2 h.calling
  · unfold tokens
    rw [hpend, List.count_cons]
    dsimp only
    omega
  · rw [hpend, List.count_cons_of_ne hf]

theorem functor (h : s.Inv) (htodo : s.todo = []) (errno : Errno) :
    ∃ s', s.exec (.functor errno) = .ok s' ∧ s'.Inv := by
  unfold exec
  dsimp only
  split
  next => exact ⟨s, rfl, h⟩
  next f fs hpend =>
    cases f with
    | stopInLoop => exact (h.popped hpend nofun).stopInLoop
    | resetChannel => exact h.resetChannel htodo hpend
    | startInLoop =>
      -- this was the only token, and every `resetChannel` has been run
      have hpop := h.popped hpend nofun
      have htok := h.token
      have horder := h.order
      rw [hpend] at horder
      unfold tokens at htok
      rw [hpend, List.count_cons_self] at htok
      have hst : s.state = .kDisconnected := h.idle (by
        unfold tokens
        rw [hpend, List.count_cons_self]
        omega)
      have hnot : .resetChannel ∉ fs := fun hmem => (List.pairwise_cons.1 horder).1 _ hmem rfl rfl
      refine hpop.startInLoop hst (hpop.channel_eq_none (hst.trans_ne nofun) hnot) ?_ errno
      unfold tokens
      dsimp only
      omega

theorem push (h : s.Inv) {i : Nat} (hi : i < s.calls.length) :
    Inv { s with calls := s.calls.eraseIdx i, pending := s.pending ++ s.calls[i]?.toList } := by
  have hperm := List.getElem_cons_eraseIdx_perm hi
  have hne : s.calls[i] ≠ .resetChannel := fun heq => h.calling (heq ▸ List.getElem_mem hi)
  rw [List.getElem?_eq_getElem hi, Option.toList_some]
  refine h.requeue rfl rfl rfl rfl ?_ ?_ ?_ fun hmem => h.calling (List.mem_of_mem_eraseIdx hmem)
  · have hcount := hperm.count_eq .startInLoop
    unfold tokens
    dsimp only
    rw [List.count_append, List.count_singleton]
    rw [List.count_cons] at hcount
    omega
  · rw [List.count_append, List.count_singleton, if_neg (by simpa using hne)]
    rfl
  · refine List.pairwise_append.2 ⟨h.order, List.pairwise_singleton _ _, fun f _ g hg _ => ?_⟩
    cases List.mem_singleton.1 hg
    exact hne

theorem timer (h : s.Inv) (htimers : 0 < s.timers)
    (hreset : .resetChannel ∉ s.pending) (errno : Errno) :
    ∃ s', s.exec (.timer errno) = .ok s' ∧ s'.Inv := by
  have htok := h.token
  unfold tokens at htok
  have hst : s.state = .kDisconnected := h.idle (by
    unfold tokens
    omega)
  have hinv : Inv { s with timers := s.timers - 1 } := by
    refine h.requeue rfl rfl rfl rfl ?_ rfl h.order h.calling
    unfold tokens
    dsimp only
    omega
  refine hinv.startInLoop hst (h.channel_eq_none (hst.trans_ne nofun) hreset) ?_ errno
  unfold tokens
  dsimp only
  omega

theorem start (h : s.Inv) (hst : s.state = .kDisconnected) (htok : s.tokens = 0)
    (hreset : .resetChannel ∉ s.pending) (errno : Errno) :
    ∃ s', s.exec (.start errno) = .ok s' ∧ s'.Inv := by
  have hinv : Inv { s with connect := true } :=
    h.requeue rfl rfl rfl rfl (Nat.le_refl _) rfl h.order h.calling
  exact hinv.startInLoop hst (h.channel_eq_none (hst.trans_ne nofun) hreset) htok errno

theorem callStart (h : s.Inv) (hst : s.state = .kDisconnected)
    (htok : s.tokens = 0) : Inv { s with connect := true, calls := s.calls ++ [.startInLoop] } := by
  refine ⟨?_, fun _ => hst, h.connecting, h.reset, h.order, h.attempts, ?_, h.dispatch, h.handling⟩
  · unfold tokens at htok ⊢
    dsimp only
    rw [List.count_append, List.count_singleton_self]
    omega
  · rw [List.mem_append, List.mem_singleton]
    rintro (hmem | hmem)
    · exact h.calling hmem
    · cases hmem

theorem restart (h : s.Inv) (hst : s.state = .kConnected) (htodo : s.todo = [])
    (hreset : .resetChannel ∉ s.pending) (errno : Errno) :
    ∃ s', s.exec (.restart errno) = .ok s' ∧ s'.Inv := by
  have hch := h.channel_eq_none (hst.trans_ne nofun) hreset
  have htok := h.tokens_eq_zero (hst.trans_ne nofun)
  have hconn : States.kDisconnected = .kConnecting ↔ ∃ fd, s.channel = some ⟨fd, true⟩ := by
    rw [hch]
    exact ⟨nofun, fun ⟨_, hc⟩ => nomatch hc⟩
  have hinv : Inv { s with
      state := .kDisconnected, retryDelayMs := kInitRetryDelayMs, connect := true } :=
    ⟨h.token, fun _ => rfl, hconn, h.reset, h.order, h.attempts, h.calling, h.dispatch,
      fun hne => absurd htodo hne⟩
  exact hinv.startInLoop rfl hch htok errno

theorem stop (h : s.Inv) :
    Inv { s with connect := false, pending := s.pending ++ [.stopInLoop] } := by
  refine h.requeue rfl rfl rfl rfl ?_ ?_ ?_ h.calling
  · simp [tokens]
  · simp
  · refine List.pairwise_append.2 ⟨h.order, List.pairwise_singleton _ _, fun f _ g hg _ => ?_⟩
    cases List.mem_singleton.1 hg
    exact nofun

theorem callStop (h : s.Inv) :
    Inv { s with connect := false, calls := s.calls ++ [.stopInLoop] } := by
  refine h.requeue rfl rfl rfl rfl ?_ rfl h.order ?_
  · simp [tokens]
  · simpa using h.calling

end Inv

theorem sound_safe : Machine.Safe (machine.under Sound) Inv := by
  intro s op h he
  obtain ⟨he, hsound⟩ := he
  cases op with
  | start errno => exact h.start hsound.1 hsound.2.1 hsound.2.2 errno
  | stop => exact ⟨_, rfl, h.stop⟩
  | callStart => exact ⟨_, rfl, h.callStart hsound.1 hsound.2⟩
  | callStop => exact ⟨_, rfl, h.callStop⟩
  | push i => exact ⟨_, rfl, h.push he⟩
  | restart errno => exact h.restart he.1 he.2 hsound errno
  | functor errno => exact h.functor he.1 errno
  | timer errno => exact h.timer he hsound errno
  | poll error write => exact ⟨_, rfl, h.poll he.2 error write⟩
  | next soError selfConnect => exact h.next soError selfConnect

/-- **One attempt at a time.** In every run whose steps meet `Sound`, whatever is offered next is
executed without a failed assertion: `startInLoop` is entered in `kDisconnected`, `connecting`
without a channel, and `resetChannel` destroys a channel that has left the poller. At most one
socket is neither closed nor handed over. -/
theorem connector_run {ops : List Op} {s : Connector} (hr : (machine.under Sound).Run init ops s) :
    (∀ op, s.Enabled op → s.Sound op → ∃ s', s.exec op = .ok s') ∧
      ∀ (i j : Nat) (k l : Socket), s.sockets[i]? = some k → s.sockets[j]? = some l →
        k.inProgress = true → l.inProgress = true → i = j := by
  obtain ⟨h, hnext⟩ := sound_safe.run hr inv_init
  refine ⟨fun op he hsound => hnext op ⟨he, hsound⟩, fun i j k l hk hl hpk hpl => ?_⟩
  have hi := (h.attempts i k hk).1 hpk
  have hj := (h.attempts j l hl).1 hpl
  cases hi.symm.trans hj
  rfl

/-- The first attempt is refused, the second one is stopped, and the third one is started by another
thread before the channel of the second is reset. -/
theorem connector_run_restarted :
    ∃ s, (machine.under Sound).Run init
        [.start ECONNREFUSED, .timer EINPROGRESS, .stop, .functor 0, .callStart, .push 0,
          .functor 0, .functor EINPROGRESS] s ∧
      s.sockets = [⟨1, 0⟩, ⟨1, 0⟩, ⟨0, 0⟩] ∧
      ∀ op, s.Enabled op → s.Sound op → ∃ s', s.exec op = .ok s' := by
  obtain ⟨s, hr, hobs⟩ := Machine.Run.of_replay (machine.under Sound) init
    [.start ECONNREFUSED, .timer EINPROGRESS, .stop, .functor 0, .callStart, .push 0, .functor 0,
      .functor EINPROGRESS]
    (fun s : Connector => s.sockets) [⟨1, 0⟩, ⟨1, 0⟩, ⟨0, 0⟩] (by decide +kernel)
  exact ⟨s, hr, hobs, (connector_run hr).1⟩

/-- How a step fails. -/
def fault? (s : Connector) (op : Op) : Option Fault :=
  match s.exec op with
  | .ok _ => none
  | .error e => some e

theorem run_fault {ops : List Op} {op : Op} {e : Fault}
    (h : (machine.replay init ops).map (fault? · op) = some (some e)) :
    ∃ s, machine.Run init ops s ∧ s.fault? op = some e :=
  Machine.Run.of_replay machine init ops (fault? · op) (some e) h

/-- `start`, `stop`, `start`: in the loop thread, while `connect` is in progress; in the loop
thread, with a retry timer left from the first `start`; with the second `start` in another thread,
when `stopInLoop` and `startInLoop` are run before `resetChannel`; and after the connection was
made. -/
theorem start_stop_start_fails :
    (∃ s, machine.Run init [.start EINPROGRESS, .stop] s ∧
      s.fault? (.start EINPROGRESS) = some .assertStart) ∧
    (∃ s, machine.Run init [.start ECONNREFUSED, .stop, .functor 0, .start EINPROGRESS] s ∧
      s.fault? (.timer EINPROGRESS) = some .assertStart) ∧
    (∃ s, machine.Run init [.start EINPROGRESS, .stop, .callStart, .push 0, .functor 0] s ∧
      s.fault? (.functor EINPROGRESS) = some .assertChannel) ∧
    ∃ s, machine.Run init
        [.start EINPROGRESS, .poll false true, .next 0 false, .functor 0, .stop, .functor 0] s ∧
      s.fault? (.start EINPROGRESS) = some .assertStart :=
  ⟨run_fault (by decide +kernel), run_fault (by decide +kernel), run_fault (by decide +kernel),
    run_fault (by decide +kernel)⟩

end Connector
end TinyMuduo

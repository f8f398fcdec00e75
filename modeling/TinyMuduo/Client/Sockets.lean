import TinyMuduo.Client.Attempts

/-!
# Client.Sockets

What becomes of every descriptor that `connect()` creates, in any run of the connector in which its
assertions hold; `Sound` of `Client.Attempts` is not assumed.

`Ledger` is what a step keeps: a descriptor is in progress exactly while it is the one of a channel
in the poller, and a channel that left the poller has one `resetChannel` in the queue. The functions
that may fail an assertion keep it in the sense of `Checked`.
-/

namespace TinyMuduo
namespace Connector

open Result

/-- `fd` is being connected through `channel_`. -/
def Connecting (s : Connector) (fd : Nat) : Prop :=
  s.state = .kConnecting ∧ s.channel = some ⟨fd, true⟩

/-- Closed once, or handed over once and never closed. -/
def Socket.Settled (k : Socket) : Prop :=
  k.closed = 1 ∧ k.passed = 0 ∨ k.closed = 0 ∧ k.passed = 1

/-- The assertions of the connector itself. -/
def Fault.Own : Fault → Prop
  | .assertStart | .assertChannel | .assertWrite => True
  | .assertRemoved | .nullChannel => False

structure Ledger (s : Connector) : Prop where
  connecting : s.state = .kConnecting ↔ ∃ fd, s.channel = some ⟨fd, true⟩
  reset : s.pending.count .resetChannel = stale s.channel
  calling : .resetChannel ∉ s.calls
  sockets : ∀ (i : Nat) k, s.sockets[i]? = some k →
    s.channel = some ⟨i, true⟩ ∧ k = ⟨0, 0⟩ ∨ s.channel ≠ some ⟨i, true⟩ ∧ k.Settled
  delay : kInitRetryDelayMs ≤ s.retryDelayMs ∧ s.retryDelayMs ≤ kMaxRetryDelayMs

def Checked : Except Fault Connector → Prop
  | .ok s => s.Ledger
  | .error e => e.Own

theorem ledger_init : init.Ledger := by
  refine ⟨⟨nofun, fun ⟨_, h⟩ => nomatch h⟩, rfl, List.not_mem_nil, fun i k hk => ?_, ?_⟩
  · cases hk
  · decide

theorem retry_delay {s : Connector}
    (h : kInitRetryDelayMs ≤ s.retryDelayMs ∧ s.retryDelayMs ≤ kMaxRetryDelayMs) (fd : Nat) :
    kInitRetryDelayMs ≤ (s.retry fd).retryDelayMs ∧
      (s.retry fd).retryDelayMs ≤ kMaxRetryDelayMs := by
  unfold retry retryLater
  split
  · obtain ⟨hlo, hhi⟩ := h
    refine ⟨Nat.le_min.2 ⟨?_, Nat.le_trans hlo hhi⟩, Nat.min_le_right ..⟩
    exact Nat.le_trans hlo (Nat.le_mul_of_pos_right _ (by decide))
  · exact h

namespace Ledger

/-- Only the queues change. -/
theorem requeued {s s' : Connector} (h : s.Ledger) (hstate : s'.state = s.state)
    (hch : s'.channel = s.channel) (hsock : s'.sockets = s.sockets)
    (hreset : s'.pending.count .resetChannel = s.pending.count .resetChannel)
    (hcalls : .resetChannel ∉ s'.calls) (hdelay : s'.retryDelayMs = s.retryDelayMs) :
    s'.Ledger := by
  refine ⟨?_, ?_, hcalls, ?_, ?_⟩
  · rw [hstate, hch]; exact h.connecting
  · rw [hreset, hch]; exact h.reset
  · rw [hsock, hch]; exact h.sockets
  · rw [hdelay]; exact h.delay

/-- A descriptor was created and closed; the channel, if there is one, is an old one. -/
theorem refused {s s' : Connector} (h : s.Ledger) (hst : s.state ≠ .kConnecting)
    (hstate : s'.state ≠ .kConnecting) (hch : s'.channel = s.channel)
    (hsock : s'.sockets = (s.create.close s.sockets.length).sockets)
    (hpend : s'.pending = s.pending) (hcalls : s'.calls = s.calls)
    (hdelay : kInitRetryDelayMs ≤ s'.retryDelayMs ∧ s'.retryDelayMs ≤ kMaxRetryDelayMs) :
    s'.Ledger := by
  have hnot : ∀ fd, s.channel ≠ some ⟨fd, true⟩ := fun fd hc => hst (h.connecting.2 ⟨fd, hc⟩)
  refine ⟨?_, ?_, ?_, fun i k hk => Or.inr ⟨?_, ?_⟩, hdelay⟩
  · rw [hch]
    exact ⟨fun hc => absurd hc hstate, fun ⟨fd, hc⟩ => absurd hc (hnot fd)⟩
  · rw [hpend, hch]; exact h.reset
  · rw [hcalls]; exact h.calling
  · rw [hch]; exact hnot i
  · rw [hsock, close, create, List.getElem?_modify] at hk
    obtain ⟨l, hl, rfl⟩ := Option.map_eq_some_iff.1 hk
    rcases Nat.lt_trichotomy i s.sockets.length with hi | hi | hi
    · rw [List.getElem?_append_left hi] at hl
      rw [if_neg (Nat.ne_of_gt hi)]
      exact ((h.sockets i l hl).resolve_left fun hc => hnot i hc.1).2
    · rw [hi, List.getElem?_concat_length] at hl
      cases hl
      rw [if_pos hi.symm]
      exact Or.inl ⟨rfl, rfl⟩
    · rw [List.getElem?_eq_none (by rw [List.length_append]; exact hi)] at hl
      cases hl

/-- A descriptor was created and gets the channel. -/
theorem begun {s : Connector} (h : s.Ledger) (hch : s.channel = none) :
    Ledger { s.create with state := .kConnecting, channel := some ⟨s.sockets.length, true⟩ } := by
  have hcount := h.reset
  rw [hch] at hcount
  refine ⟨⟨fun _ => ⟨_, rfl⟩, fun _ => rfl⟩, hcount, h.calling, fun i k hk => ?_, h.delay⟩
  rcases Nat.lt_trichotomy i s.sockets.length with hi | hi | hi
  · rw [create, List.getElem?_append_left hi] at hk
    refine Or.inr ⟨fun hc => ?_, ?_⟩
    · cases hc
      exact Nat.lt_irrefl _ hi
    · refine ((h.sockets i k hk).resolve_left fun hc => ?_).2
      cases hch.symm.trans hc.1
  · rw [hi, create, List.getElem?_concat_length] at hk
    exact Or.inl ⟨by rw [hi], (Option.some.inj hk).symm⟩
  · rw [create, List.getElem?_eq_none (by rw [List.length_append]; exact hi)] at hk
    cases hk

/-- The channel leaves the poller, and its descriptor is closed or handed over. -/
theorem ended {s s' : Connector} (h : s.Ledger) {fd : Nat} (hch : s.channel = some ⟨fd, true⟩)
    (hstate : s'.state ≠ .kConnecting) (hch' : s'.channel = some ⟨fd, false⟩)
    (hpend : s'.pending = s.pending ++ [.resetChannel]) (hcalls : s'.calls = s.calls)
    {g : Socket → Socket} (hsock : s'.sockets = s.sockets.modify fd g)
    (hg : (g ⟨0, 0⟩).Settled)
    (hdelay : kInitRetryDelayMs ≤ s'.retryDelayMs ∧ s'.retryDelayMs ≤ kMaxRetryDelayMs) :
    s'.Ledger := by
  refine ⟨?_, ?_, ?_, fun i k hk => Or.inr ⟨?_, ?_⟩, hdelay⟩
  · rw [hch']
    exact ⟨fun hc => absurd hc hstate, fun ⟨_, hc⟩ => nomatch hc⟩
  · rw [hpend, List.count_append, h.reset, hch, hch']
    rfl
  · rw [hcalls]; exact h.calling
  · rw [hch']
    exact nofun
  · rw [hsock, List.getElem?_modify] at hk
    obtain ⟨l, hl, rfl⟩ := Option.map_eq_some_iff.1 hk
    by_cases hfd : fd = i
    · subst hfd
      have hzero := ((h.sockets fd l hl).resolve_right fun hc => hc.1 hch).2
      simp only [if_pos]
      rw [hzero]
      exact hg
    · simp only [if_neg hfd]
      refine ((h.sockets i l hl).resolve_left fun hc => ?_).2
      cases hch.symm.trans hc.1
      exact hfd rfl

theorem retried {s : Connector} (h : s.Ledger) {fd : Nat} (hch : s.channel = some ⟨fd, true⟩)
    (st : States) : (({ s with state := st }.removed fd).retry fd).Ledger := by
  refine h.ended hch ?_ ?_ ?_ ?_ (retry_sockets _ fd) (Or.inl ⟨rfl, rfl⟩)
    (retry_delay (s := { s with state := st }.removed fd) h.delay fd)
  · rw [retry_state]; exact nofun
  · rw [retry_channel]; rfl
  · rw [retry_pending]; rfl
  · rw [retry_calls]; rfl

end Ledger

/-! ## Functions that may fail an assertion -/

variable {s : Connector}

theorem checked_connectNow (h : s.Ledger) (hst : s.state = .kDisconnected) (errno : Errno) :
    Checked (s.connectNow errno) := by
  have hne : s.state ≠ .kConnecting := hst.trans_ne nofun
  unfold connectNow
  dsimp only
  split
  · unfold Connector.connecting
    by_cases hch : s.create.channel = none
    · rw [ensure_pos hch, ok_bind]
      exact h.begun hch
    · rw [ensure_neg hch, error_bind]
      exact trivial
  · split
    · refine h.refused hne ?_ (retry_channel _ _) (retry_sockets _ _) (retry_pending _ _)
        (retry_calls _ _) (retry_delay (s := s.create) h.delay _)
      rw [retry_state]; exact nofun
    · exact h.refused hne hne rfl rfl rfl rfl h.delay

theorem checked_startInLoop (h : s.Ledger) (errno : Errno) : Checked (s.startInLoop errno) := by
  unfold startInLoop
  by_cases hst : s.state = .kDisconnected
  · rw [ensure_pos hst, ok_bind]
    split
    · exact checked_connectNow h hst errno
    · exact h
  · rw [ensure_neg hst, error_bind]
    exact trivial

theorem checked_stopInLoop (h : s.Ledger) : Checked s.stopInLoop := by
  unfold stopInLoop
  split
  next hst =>
    obtain ⟨fd, hch⟩ := h.connecting.1 hst
    have hch' : ({ s with state := .kDisconnected } : Connector).channel = some ⟨fd, true⟩ := hch
    rw [removeAndResetChannel_eq hch']
    exact h.retried hch .kDisconnected
  next => exact h

theorem checked_handleError (h : s.Ledger) : Checked s.handleError := by
  unfold handleError
  split
  next hst =>
    obtain ⟨fd, hch⟩ := h.connecting.1 hst
    rw [removeAndResetChannel_eq hch]
    exact h.retried hch s.state
  next => exact h

theorem checked_handleWrite (h : s.Ledger) (soError : Errno) (selfConnect : Bool) :
    Checked (s.handleWrite soError selfConnect) := by
  unfold handleWrite
  split
  next hst =>
    obtain ⟨fd, hch⟩ := h.connecting.1 hst
    rw [removeAndResetChannel_eq hch, ok_bind]
    dsimp only
    split
    · exact h.retried hch s.state
    · split
      · exact h.retried hch s.state
      · show Ledger _
        split
        · exact h.ended hch (fun heq => by cases heq) rfl rfl rfl rfl (Or.inr ⟨rfl, rfl⟩) h.delay
        · exact h.ended hch (fun heq => by cases heq) rfl rfl rfl rfl (Or.inl ⟨rfl, rfl⟩) h.delay
  next =>
    by_cases hst : s.state = .kDisconnected
    · rw [ensure_pos hst, ok_bind]
      exact h
    · rw [ensure_neg hst, error_bind]
      exact trivial

/-- The channel that `resetChannel` destroys has left the poller. -/
theorem checked_resetChannel (h : s.Ledger) {fs : List Functor}
    (hpend : s.pending = .resetChannel :: fs) :
    Checked ({ s with pending := fs }.resetChannel) := by
  have hreset := h.reset
  rw [hpend, List.count_cons_self] at hreset
  have hstale : ∀ c, s.channel = some c → c.added = false := by
    rintro ⟨fd, added⟩ hc
    cases added with
    | false => rfl
    | true => rw [hc] at hreset; cases hreset
  have hnot : ∀ fd, s.channel ≠ some ⟨fd, true⟩ := fun fd hc => nomatch hstale _ hc
  have hst : s.state ≠ .kConnecting := fun hst => by
    obtain ⟨fd, hc⟩ := h.connecting.1 hst
    exact hnot fd hc
  have hcount : fs.count .resetChannel = 0 := by
    cases hc : s.channel with
    | none => rw [hc] at hreset; cases hreset
    | some c =>
      obtain ⟨fd, added⟩ := c
      rw [hc] at hreset
      cases hstale _ hc
      exact Nat.succ.inj hreset
  have hadded : ∀ c ∈ ({ s with pending := fs } : Connector).channel, c.added = false :=
    fun c hc => hstale c hc
  unfold resetChannel
  rw [ensure_pos hadded, ok_bind]
  refine ⟨⟨fun hc => absurd hc hst, fun ⟨_, hc⟩ => nomatch hc⟩, hcount, h.calling, fun i k hk => ?_,
    h.delay⟩
  exact Or.inr ⟨nofun, ((h.sockets i k hk).resolve_left fun hc => hnot i hc.1).2⟩

theorem checked_functor (h : s.Ledger) (errno : Errno) : Checked (s.exec (.functor errno)) := by
  unfold exec
  dsimp only
  split
  next => exact h
  next f fs hpend =>
    have hpop : f ≠ .resetChannel → Ledger { s with pending := fs } := fun hf =>
      h.requeued rfl rfl rfl (by rw [hpend, List.count_cons_of_ne hf]) h.calling rfl
    cases f with
    | startInLoop => exact checked_startInLoop (hpop nofun) errno
    | stopInLoop => exact checked_stopInLoop (hpop nofun)
    | resetChannel => exact checked_resetChannel h hpend

theorem checked_next (h : s.Ledger) (soError : Errno) (selfConnect : Bool) :
    Checked (s.exec (.next soError selfConnect)) := by
  have hpop : ∀ cs, Ledger { s with todo := cs } := fun cs =>
    h.requeued rfl rfl rfl rfl h.calling rfl
  unfold exec
  dsimp only
  split
  next => exact h
  next cs _ => exact checked_handleError (hpop cs)
  next cs _ => exact checked_handleWrite (hpop cs) soError selfConnect

theorem checked_restart (h : s.Ledger) (hst : s.state = .kConnected) (errno : Errno) :
    Checked (s.exec (.restart errno)) := by
  have hnot : ¬ ∃ fd, s.channel = some ⟨fd, true⟩ := fun hc =>
    nomatch hst.symm.trans (h.connecting.2 hc)
  have hled : Ledger { s with
      state := .kDisconnected, retryDelayMs := kInitRetryDelayMs, connect := true } :=
    ⟨⟨nofun, fun hc => absurd hc hnot⟩, h.reset, h.calling, h.sockets,
      Nat.le_refl _, show kInitRetryDelayMs ≤ kMaxRetryDelayMs by decide⟩
  exact checked_startInLoop hled errno

theorem Ledger.pushed (h : s.Ledger) {i : Nat} (hi : i < s.calls.length) :
    Ledger { s with calls := s.calls.eraseIdx i, pending := s.pending ++ s.calls[i]?.toList } := by
  have hne : s.calls[i] ≠ .resetChannel := fun heq => h.calling (heq ▸ List.getElem_mem hi)
  refine h.requeued rfl rfl rfl ?_ (fun hmem => h.calling (List.mem_of_mem_eraseIdx hmem)) rfl
  rw [List.getElem?_eq_getElem hi, Option.toList_some, List.count_append, List.count_singleton,
    if_neg (by simpa using hne)]
  rfl

/-- A step keeps the ledger, unless one of the connector's assertions fails. -/
theorem exec_checked (h : s.Ledger) {op : Op} (he : s.Enabled op) : Checked (s.exec op) := by
  cases op with
  | start errno =>
    exact checked_startInLoop (s := { s with connect := true })
      (h.requeued rfl rfl rfl rfl h.calling rfl) errno
  | stop => exact h.requeued rfl rfl rfl (by simp) h.calling rfl
  | callStart | callStop => exact h.requeued rfl rfl rfl rfl (by simpa using h.calling) rfl
  | push i => exact h.pushed he
  | restart errno => exact checked_restart h he.1 errno
  | functor errno => exact checked_functor h errno
  | timer errno =>
    exact checked_startInLoop (s := { s with timers := s.timers - 1 })
      (h.requeued rfl rfl rfl rfl h.calling rfl) errno
  | poll error write => exact h.requeued rfl rfl rfl rfl h.calling rfl
  | next soError selfConnect => exact checked_next h soError selfConnect

/-- **Every descriptor is accounted for.** In every run of the connector, a descriptor made by
`connect()` is being connected through the channel, or was closed once, or was handed over once and
is not closed. The retry delay stays between its bounds. A step that fails fails an assertion of the
connector: it neither uses a null channel nor destroys one that the poller has. -/
theorem sockets_accounted {ops : List Op} {s : Connector} (hr : machine.Run init ops s) :
    (∀ (i : Nat) k, s.sockets[i]? = some k →
      s.Connecting i ∧ k.closed = 0 ∧ k.passed = 0 ∨
      ¬ s.Connecting i ∧ k.closed = 1 ∧ k.passed = 0 ∨
      ¬ s.Connecting i ∧ k.closed = 0 ∧ k.passed = 1) ∧
    (kInitRetryDelayMs ≤ s.retryDelayMs ∧ s.retryDelayMs ≤ kMaxRetryDelayMs) ∧
    ∀ op e, s.Enabled op → s.exec op = .error e → e.Own := by
  have hkeeps : machine.Keeps Ledger := by
    intro s op s' h he hx
    have hc := exec_checked h he
    rw [show s.exec op = .ok s' from hx] at hc
    exact hc
  have h : s.Ledger := hr.keeps hkeeps ledger_init
  refine ⟨fun i k hk => ?_, h.delay, fun op e he hx => ?_⟩
  · rcases h.sockets i k hk with ⟨hch, rfl⟩ | ⟨hch, hk⟩
    · exact Or.inl ⟨⟨h.connecting.2 ⟨i, hch⟩, hch⟩, rfl, rfl⟩
    · exact Or.inr (hk.imp (fun hk => ⟨fun hc => hch hc.2, hk⟩) fun hk => ⟨fun hc => hch hc.2, hk⟩)
  · have hc := exec_checked h he
    rw [hx] at hc
    exact hc

/-- The first descriptor is refused, the second one ends with an error and a write event in one
dispatch, the third one is handed over, and after a restart the fourth one is in progress. -/
theorem sockets_accounted_sample :
    ∃ s, machine.Run init
      [.start ECONNREFUSED, .timer EINPROGRESS, .poll true true, .next 0 false, .next 0 false,
        .functor 0, .timer EINPROGRESS, .poll false true, .next 0 false, .functor 0,
        .restart EINPROGRESS] s ∧
      s.sockets = [⟨1, 0⟩, ⟨1, 0⟩, ⟨0, 1⟩, ⟨0, 0⟩] ∧ s.retryDelayMs ≤ kMaxRetryDelayMs := by
  obtain ⟨s, hr, hobs⟩ := Machine.Run.of_replay machine init
    [.start ECONNREFUSED, .timer EINPROGRESS, .poll true true, .next 0 false, .next 0 false,
      .functor 0, .timer EINPROGRESS, .poll false true, .next 0 false, .functor 0,
      .restart EINPROGRESS]
    (fun s : Connector => s.sockets) [⟨1, 0⟩, ⟨1, 0⟩, ⟨0, 1⟩, ⟨0, 0⟩] (by decide +kernel)
  exact ⟨s, hr, hobs, (sockets_accounted hr).2.1.2⟩

end Connector
end TinyMuduo

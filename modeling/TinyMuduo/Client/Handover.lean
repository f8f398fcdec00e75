import TinyMuduo.Client.TcpClient
import TinyMuduo.Lib.Total

/-!
# Client.Handover

What a `TcpClient` relies on in its parts.

* `Watch.Settled` — a connection calls `closeCallback_` once, and is handed to `connectDestroyed`
  after that.
* `Connector.exec_cases` — a step of the connector hands over one socket, or none.
* `Connector.connected_step` — a connector that has handed over a socket stays as it is until
  `restart`.
* `Connector.Stopped` — nobody will start the connector again; once its functors have been run,
  nothing of it is left in the loop.
-/

namespace TinyMuduo

open TcpConnection

/-! ## One connection -/

namespace Watch

open Result TcpClient

variable {kind : PollerKind} {w w' : Watch} {op : WatchOp}

structure Settled (kind : PollerKind) (w : Watch) : Prop where
  inv : w.Inv kind
  up : w.conn.state ≠ .kConnecting
  /-- Each `handleClose` has called `closeCallback_`, or is about to. -/
  count : w.todo.count .closeCallback + (if w.owned then 0 else 1) = w.closes
  destroying : .connectDestroyed ∈ w.pending → w.owned = false

/-- A step in which the owner is not called. -/
structure Quiet (op : WatchOp) (w w' : Watch) : Prop where
  up : w'.conn.state ≠ .kConnecting
  count : w'.todo.count .closeCallback + w.closes = w.todo.count .closeCallback + w'.closes
  owned : w'.owned = w.owned
  pending : .connectDestroyed ∈ w'.pending → .connectDestroyed ∈ w.pending
  todo : w'.todo = w.todo ∨ w.todo ≠ [] ∨ isTurn op = true

theorem count_ofEffect (es : List Effect) :
    (es.filterMap Todo.ofEffect).count .closeCallback = es.count .closeCallback := by
  induction es with
  | nil => rfl
  | cons e es ih => cases e <;> simp [List.filterMap_cons, Todo.ofEffect, ih]

/-- A function of the connection has returned with `x`. -/
theorem Quiet.after {rest : List Todo}
    {x : TcpConnection × List Effect} (hup : x.1.state ≠ .kConnecting)
    (hrest : rest.count .closeCallback = w.todo.count .closeCallback)
    (htodo : x.2.filterMap Todo.ofEffect ++ rest = w.todo ∨ w.todo ≠ [] ∨ isTurn op = true) :
    Quiet op w (w.after kind rest x) where
  up := hup
  count := by
    simp only [Watch.after, List.count_append, count_ofEffect, hrest]
    omega
  owned := rfl
  pending := id
  todo := htodo

theorem Quiet.steady {c : TcpConnection}
    {es : List Effect} (hs : Steady w.conn c es) (hup : w.conn.state ≠ .kConnecting) :
    Quiet op w (w.after kind w.todo (c, es)) :=
  .after (hs.state ▸ hup) rfl (.inl (by rw [filterMap_ofEffect_settled hs.settled]; rfl))

theorem Quiet.forceClose (hup : w.conn.state ≠ .kConnecting) :
    Quiet op w w.forceClose := by
  unfold Watch.forceClose
  split
  · exact ⟨(fun h => by cases h), rfl, rfl, fun h => by simpa [setState] using h, .inl rfl⟩
  · exact ⟨hup, rfl, rfl, id, .inl rfl⟩

theorem Quiet.next {r : Buffer.Readv} {wr : Write}
    (hup : w.conn.state ≠ .kConnecting) (htodo : w.todo ≠ [])
    (hcl : callsClose w (.next r wr) = false) (hx : w.doNext kind r wr = .ok w') :
    Quiet (.next r wr) w w' := by
  cases hw : w.todo with
  | nil => exact absurd hw htodo
  | cons x rest =>
    have hrest : x ≠ .closeCallback →
        rest.count .closeCallback = w.todo.count .closeCallback := by
      intro hne
      rw [hw, List.count_cons_of_ne hne]
    cases x with
    | callback cb =>
      have hcount := hrest fun h => by cases h
      cases cb with
      | close =>
        simp only [doNext, hw] at hx
        obtain ⟨x, hlift, hok⟩ := bind_eq_ok hx
        obtain ⟨-, rfl⟩ := handleClose_eq (lift_eq_ok hlift)
        cases hok
        exact .after (fun h => by cases h) hcount (.inr (.inl htodo))
      | error =>
        simp only [doNext, hw] at hx
        cases hx
        exact ⟨hup, by rw [hcount], rfl, id, .inr (.inl htodo)⟩
      | read =>
        simp only [doNext, hw] at hx
        obtain ⟨x, hlift, hok⟩ := bind_eq_ok hx
        cases hok
        refine .after ?_ hcount (.inr (.inl htodo))
        by_cases hr : r = .bytes []
        · subst hr
          obtain ⟨c', hstate, -, rfl⟩ := handleRead_end (lift_eq_ok hlift)
          rw [hstate]
          decide
        · rw [(handleRead_steady hr (lift_eq_ok hlift)).state]
          exact hup
      | write =>
        simp only [doNext, hw] at hx
        obtain ⟨x, hlift, hok⟩ := bind_eq_ok hx
        cases hok
        refine .after ?_ hcount (.inr (.inl htodo))
        rw [(handleWrite_steady (lift_eq_ok hlift)).state]
        exact hup
    | closeCallback =>
      simp only [callsClose, hw, List.head?_cons, decide_true] at hcl
      cases hcl
    | remove =>
      simp only [doNext, hw] at hx
      obtain ⟨-, -, hok⟩ := bind_eq_ok hx
      cases hok
      exact ⟨hup, by rw [hrest fun h => by cases h], rfl, id, .inr (.inl htodo)⟩

theorem Quiet.functor {i : Nat}
    (hup : w.conn.state ≠ .kConnecting) (hx : w.runFunctor kind i = .ok w') :
    Quiet (.functor i) w w' := by
  have hpending : ∀ p, p ∈ w.pending.eraseIdx i → p ∈ w.pending := fun p =>
    List.mem_of_mem_eraseIdx
  unfold Watch.runFunctor at hx
  split at hx
  · cases hx
    exact ⟨hup, rfl, rfl, id, .inl rfl⟩
  · split at hx
    · obtain ⟨x, hlift, hok⟩ := bind_eq_ok hx
      obtain ⟨-, rfl⟩ := handleClose_eq (lift_eq_ok hlift)
      cases hok
      have hq : Quiet (.functor i) { w with pending := w.pending.eraseIdx i }
          (Watch.after kind _ w.todo
            ({ w.conn with state := .kDisconnected, channel := w.conn.channel.disableAll },
              [.updateChannel, .connectionCallback, .closeCallback])) :=
        .after (fun h => by cases h) rfl (.inr (.inr rfl))
      exact ⟨hq.up, hq.count, hq.owned, fun h => hpending _ h, .inr (.inr rfl)⟩
    · cases hx
      exact ⟨hup, rfl, rfl, hpending _, .inl rfl⟩
  · cases hx
    have hstate : w.conn.connectDestroyed.1.state ≠ .kConnecting := by
      unfold connectDestroyed
      split
      · exact fun h => by cases h
      · exact hup
    have hq : Quiet (.functor i) { w with pending := w.pending.eraseIdx i }
        (Watch.after kind _ w.todo w.conn.connectDestroyed) := .after hstate rfl (.inr (.inr rfl))
    exact ⟨hq.up, hq.count, hq.owned, fun h => hpending _ h, .inr (.inr rfl)⟩

theorem quiet_of_exec
    (hup : w.conn.state ≠ .kConnecting) (hown : isOwn op = true) (he : w.Enabled op)
    (hcl : callsClose w op = false) (hx : w.exec kind op = .ok w') : Quiet op w w' := by
  cases op with
  | connectEstablished | drop => cases hown
  | send data wr =>
    simp only [exec] at hx
    split at hx
    · obtain ⟨x, hlift, hok⟩ := bind_eq_ok hx
      cases hok
      exact .steady (sendInLoop_steady (lift_eq_ok hlift)) hup
    · cases hx
      exact ⟨hup, rfl, rfl, id, .inl rfl⟩
  | shutdown =>
    simp only [exec] at hx
    split at hx
    next hsh =>
      cases hx
      have hstate : w.conn.shutdown.2.state ≠ .kConnecting := by
        unfold TcpConnection.shutdown
        split
        · exact fun h => by cases h
        · exact hup
      refine .after hstate rfl (.inl ?_)
      rw [filterMap_ofEffect_settled fun e he => (shutdownInLoop_settled _ e he).1]
      rfl
    next =>
      cases hx
      exact ⟨hup, rfl, rfl, id, .inl rfl⟩
  | forceClose =>
    cases hx
    exact .forceClose hup
  | forceCloseWithDelay =>
    cases hx
    unfold Watch.forceCloseWithDelay
    split
    · exact ⟨(fun h => by cases h), rfl, rfl, id, .inl rfl⟩
    · exact ⟨hup, rfl, rfl, id, .inl rfl⟩
  | startRead =>
    cases hx
    unfold Watch.startReadInLoop
    split
    · exact ⟨hup, rfl, rfl, id, .inl rfl⟩
    · exact ⟨hup, rfl, rfl, id, .inl rfl⟩
  | stopRead =>
    cases hx
    unfold Watch.stopReadInLoop
    split
    · exact ⟨hup, rfl, rfl, id, .inl rfl⟩
    · exact ⟨hup, rfl, rfl, id, .inl rfl⟩
  | timer =>
    cases hx
    have hq : Quiet .timer { w with delayed := w.delayed - 1 } _ := .forceClose hup
    exact ⟨hq.up, hq.count, hq.owned, hq.pending, hq.todo⟩
  | poll revents =>
    cases hx
    refine ⟨hup, ?_, rfl, id, .inr (.inr rfl)⟩
    rw [he.1]
    simp [List.count_eq_zero]
  | next r wr => exact .next hup he hcl hx
  | functor i => exact .functor hup hx

/-- The step that calls `closeCallback_`. -/
theorem closeCallback_of_exec (hcl : callsClose w op = true) (hx : w.exec kind op = .ok w') :
    ∃ rest, w.todo = .closeCallback :: rest ∧
      w' = { w with
        todo := rest
        pending := w.pending ++ if w.owned then [.connectDestroyed] else []
        owned := false } := by
  cases op with
  | next r wr =>
    have hhead : w.todo.head? = some .closeCallback := of_decide_eq_true hcl
    cases hw : w.todo with
    | nil =>
      rw [hw] at hhead
      cases hhead
    | cons x rest =>
      rw [hw] at hhead
      cases hhead
      simp only [exec, doNext, hw] at hx
      cases hx
      exact ⟨rest, rfl, rfl⟩
  | _ => cases hcl

theorem mem_of_callsClose (h : callsClose w op = true) :
    .closeCallback ∈ w.todo := by
  cases op with
  | next r wr => exact List.mem_of_head? (of_decide_eq_true h)
  | _ => cases h

namespace Settled

theorem closes_le (h : Settled kind w) : w.closes ≤ 1 := by
  rcases h.inv.once with h0 | ⟨h1, -⟩
  · omega
  · omega

/-- A connection that is open, or still about to call `closeCallback_`, belongs to its owner. -/
theorem owned (h : Settled kind w) (hw : w.isOpen = true ∨ .closeCallback ∈ w.todo) :
    w.owned = true := by
  have hcount := h.count
  have hle := h.closes_le
  rcases hw with hopen | hmem
  · have hcloses : w.closes = 0 := by
      rcases h.inv.once with h0 | ⟨-, h1⟩
      · exact h0
      · exact absurd h1 (isOpen_ne hopen).2
    cases ho : w.owned with
    | true => rfl
    | false =>
      rw [ho] at hcount
      simp at hcount
      omega
  · have hpos := List.count_pos_iff.2 hmem
    cases ho : w.owned with
    | true => rfl
    | false =>
      rw [ho] at hcount
      simp at hcount
      omega

theorem disconnected (h : Settled kind w) (ho : w.owned = false) :
    w.conn.state = .kDisconnected := by
  have hcount := h.count
  rw [ho] at hcount
  simp at hcount
  rcases h.inv.once with h0 | ⟨-, h1⟩
  · omega
  · exact h1

/-- What the users of the connection must keep to. -/
theorem sound (h : Settled kind w) (hs : match op with
      | .functor i => w.pending[i]? = some .forceCloseInLoop → w.isOpen = true → w.Interested kind
      | op => w.Sound kind op) : w.Sound kind op := by
  cases op with
  | functor i =>
    refine ⟨hs, fun hi => ?_⟩
    rw [h.disconnected (h.destroying (List.mem_of_getElem? hi))]
    decide
  | _ => exact hs

theorem step (h : Settled kind w) (hown : isOwn op = true) (he : w.Enabled op)
    (hs : w.Sound kind op) (hx : w.exec kind op = .ok w') : Settled kind w' := by
  have hinv := sound_keeps_inv kind w op w' h.inv ⟨he, hs⟩ hx
  cases hcl : callsClose w op with
  | false =>
    have hq := quiet_of_exec h.up hown he hcl hx
    refine ⟨hinv, hq.up, ?_, fun hp => hq.owned ▸ h.destroying (hq.pending hp)⟩
    have hc := h.count
    have hc' := hq.count
    rw [hq.owned]
    omega
  | true =>
    obtain ⟨rest, hw, rfl⟩ := closeCallback_of_exec hcl hx
    refine ⟨hinv, h.up, ?_, fun _ => rfl⟩
    have ho := h.owned (.inr (mem_of_callsClose hcl))
    have hc := h.count
    rw [hw, ho] at hc
    simpa using hc

end Settled

theorem settled_established {c : TcpConnection}
    (hc : c.state = .kConnecting) (hnone : c.channel.isNoneEvent = true)
    (hx : (init c).exec kind .connectEstablished = .ok w) :
    Settled kind w ∧ w.owned = true ∧ w.todo = [] ∧ w.isOpen = true := by
  have hfresh : (init c).Inv kind := inv_init hc hnone
  have hinv := hfresh.connectEstablished hc hx
  have hest : c.connectEstablished = .ok ({ c with
      state := .kConnected, channel := c.channel.enableReading },
      [.updateChannel, .connectionCallback]) := if_pos hc
  simp only [exec, init, hest] at hx
  cases hx
  exact ⟨⟨hinv, (fun h => by cases h), rfl, fun h => by cases h⟩, rfl, rfl, rfl⟩

end Watch

/-! ## The connector -/

namespace Connector

open Result

variable {s s' : Connector}

/-- How many sockets went to `newConnectionCallback_`. -/
def handed (s : Connector) : Nat := (s.sockets.map (·.passed)).sum

def InRange (s : Connector) : Prop := ∀ l ∈ s.channel, l.fd < s.sockets.length

/-- `connect_` is not written, and no socket handed over. -/
structure Same (s s' : Connector) : Prop where
  connect : s'.connect = s.connect
  handed : s'.handed = s.handed
  inRange : s.InRange → s'.InRange

theorem Same.refl (s : Connector) : Same s s := ⟨rfl, rfl, id⟩

theorem Same.trans {s₁ s₂ s₃ : Connector} (h : Same s₁ s₂) (h' : Same s₂ s₃) : Same s₁ s₃ :=
  ⟨h'.connect.trans h.connect, h'.handed.trans h.handed, fun hr => h'.inRange (h.inRange hr)⟩

theorem sum_map_modify {xs : List Socket} {fd d : Nat} {g : Socket → Socket}
    (hfd : fd < xs.length) (hg : ∀ k, (g k).passed = k.passed + d) :
    ((xs.modify fd g).map (·.passed)).sum = (xs.map (·.passed)).sum + d := by
  have hget := List.getElem?_eq_getElem hfd
  have hsum := List.sum_map_set (f := fun k : Socket => k.passed) hget rfl (hg xs[fd])
  rw [List.modify_eq_set_getElem?, hget]
  show ((xs.set fd (g xs[fd])).map (·.passed)).sum = _
  omega

theorem same_close (s : Connector) (fd : Nat) : Same s (s.close fd) := by
  refine ⟨rfl, ?_, fun h l hl => ?_⟩
  · by_cases hfd : fd < s.sockets.length
    · exact sum_map_modify (d := 0) hfd fun _ => rfl
    · rw [handed, close, List.modify_eq_self (Nat.le_of_not_lt hfd)]
      rfl
  · simpa [close] using h l hl

theorem same_create (s : Connector) : Same s s.create := by
  refine ⟨rfl, by simp [handed, create], fun h l hl => ?_⟩
  have hlt := h l hl
  simp only [create, List.length_append]
  omega

theorem same_retry (s : Connector) (fd : Nat) : Same s (s.retry fd) := by
  obtain ⟨hc, hh, hr⟩ := same_close s fd
  unfold retry retryLater
  split
  · exact ⟨hc, hh, hr⟩
  · exact ⟨hc, hh, hr⟩

theorem startInLoop_same {errno : Errno} (hx : s.startInLoop errno = .ok s') :
    Same s s' := by
  obtain ⟨-, -, hx⟩ := bind_eq_ok hx
  split at hx
  · unfold connectNow at hx
    simp only at hx
    have hnew := same_create s
    split at hx
    · obtain ⟨-, -, hx⟩ := bind_eq_ok hx
      cases hx
      refine ⟨rfl, hnew.handed, fun _ l hl => ?_⟩
      cases hl
      simp [create]
    · split at hx
      · cases hx
        exact hnew.trans (same_retry ..)
      · cases hx
        exact hnew.trans (same_close ..)
  · cases hx
    exact .refl s

/-- A function that ends the attempt in progress, and does nothing when there is none. -/
structure Ends (s s' : Connector) : Prop where
  state : s'.state ≠ .kConnecting
  calls : s'.calls = s.calls
  rest : s.state ≠ .kConnecting → s' = s

theorem Ends.refl (hst : s.state ≠ .kConnecting) : Ends s s :=
  ⟨hst, rfl, fun _ => rfl⟩

/-- The channel leaves the poller; its descriptor is closed. -/
theorem removed_same {s c : Connector} {fd : Nat}
    (hr : s.removeAndResetChannel = .ok (c, fd)) : Same s c ∧ c.calls = s.calls := by
  unfold removeAndResetChannel at hr
  split at hr
  next => cases hr
  next l hl =>
    cases hr
    refine ⟨⟨rfl, rfl, fun h l' hl' => ?_⟩, rfl⟩
    cases hl'
    exact h l hl

/-- The attempt is given up, and another one is made later. -/
theorem removed_retry {s c : Connector} {fd : Nat}
    (hr : s.removeAndResetChannel = .ok (c, fd)) : Same s (c.retry fd) ∧
      (c.retry fd).state ≠ .kConnecting ∧ (c.retry fd).calls = s.calls := by
  obtain ⟨hsame, hcalls⟩ := removed_same hr
  refine ⟨hsame.trans (same_retry ..), ?_, ?_⟩
  · rw [retry_state]
    exact fun h => by cases h
  · rw [retry_calls, hcalls]

theorem stopInLoop_ends (hx : s.stopInLoop = .ok s') :
    Same s s' ∧ Ends s s' := by
  unfold stopInLoop at hx
  split at hx
  next hst =>
    obtain ⟨⟨c, fd⟩, hr, hx⟩ := bind_eq_ok hx
    cases hx
    obtain ⟨⟨hc, hh, hi⟩, hstate, hcalls⟩ := removed_retry hr
    exact ⟨⟨hc, hh, hi⟩, hstate, hcalls, fun hne => absurd hst hne⟩
  next hst =>
    cases hx
    exact ⟨.refl s, .refl hst⟩

theorem handleError_ends (hx : s.handleError = .ok s') :
    Same s s' ∧ Ends s s' := by
  unfold handleError at hx
  split at hx
  next hst =>
    obtain ⟨⟨c, fd⟩, hr, hx⟩ := bind_eq_ok hx
    cases hx
    obtain ⟨hsame, hstate, hcalls⟩ := removed_retry hr
    exact ⟨hsame, hstate, hcalls, fun hne => absurd hst hne⟩
  next hst =>
    cases hx
    exact ⟨.refl s, .refl hst⟩

/-- A socket was handed over. -/
structure Handed (s s' : Connector) : Prop where
  connecting : s.state = .kConnecting
  connected : s'.state = .kConnected
  connect : s'.connect = s.connect
  handed : s.InRange → s'.handed = s.handed + 1
  inRange : s.InRange → s'.InRange

theorem handleWrite_cases {soError : Errno} {selfConnect : Bool}
    (hx : s.handleWrite soError selfConnect = .ok s') :
    Ends s s' ∧ (Same s s' ∧
      ¬(s.state = .kConnecting ∧ soError = 0 ∧ selfConnect = false ∧ s.connect = true) ∨
    (soError = 0 ∧ selfConnect = false ∧ s.connect = true ∧ ∃ l, s.channel = some l) ∧
      Handed s s') := by
  unfold handleWrite at hx
  split at hx
  next hst =>
    obtain ⟨⟨c, fd⟩, hr, hx⟩ := bind_eq_ok hx
    dsimp only at hx
    split at hx
    next herr =>
      cases hx
      obtain ⟨hsame, hstate, hcalls⟩ := removed_retry hr
      exact ⟨⟨hstate, hcalls, fun hne => absurd hst hne⟩, .inl ⟨hsame, fun h => herr h.2.1⟩⟩
    next herr =>
      split at hx
      next hself =>
        cases hx
        obtain ⟨hsame, hstate, hcalls⟩ := removed_retry hr
        exact ⟨⟨hstate, hcalls, fun hne => absurd hst hne⟩,
          .inl ⟨hsame, fun h => by simp [h.2.2.1] at hself⟩⟩
      next hself =>
        cases hx
        obtain ⟨hsame, hcalls⟩ := removed_same hr
        refine ⟨⟨?_, ?_, fun hne => absurd hst hne⟩, ?_⟩
        · split <;> exact fun h => by cases h
        · split <;> exact hcalls
        unfold removeAndResetChannel at hr
        split at hr
        next => cases hr
        next l hl =>
          cases hr
          dsimp only
          split
          next hc =>
            refine .inr ⟨⟨not_not.1 herr, by simpa using hself, hc, l, hl⟩, hst, rfl, rfl,
              fun h => sum_map_modify (h l hl) fun _ => rfl, fun h l' hl' => ?_⟩
            cases hl'
            simpa [pass] using h l hl
          next hc =>
            obtain ⟨hc', hh, hr⟩ := hsame.trans (same_close _ l.fd)
            exact .inl ⟨⟨hc', hh, hr⟩, fun h => hc h.2.2.2⟩
  next hst =>
    obtain ⟨-, -, hx⟩ := bind_eq_ok hx
    cases hx
    exact ⟨.refl hst, .inl ⟨.refl s, fun h => hst h.1⟩⟩

/-- A step of the connector that is no call of the client hands over the socket that `hands` names,
or none. -/
theorem exec_cases {op : Op} (hop : op.isCall = false) (hx : s.exec op = .ok s') :
    s.hands op = none ∧ Same s s' ∨ (∃ fd, s.hands op = some fd) ∧ Handed s s' := by
  cases op with
  | start errno | stop | callStart | callStop | restart errno => cases hop
  | push i | poll error write => cases hx; exact .inl ⟨rfl, rfl, rfl, id⟩
  | timer errno =>
    obtain ⟨hc, hh, hr⟩ := startInLoop_same (s := { s with timers := s.timers - 1 }) hx
    exact .inl ⟨rfl, hc, hh, hr⟩
  | functor errno =>
    refine .inl ⟨rfl, ?_⟩
    simp only [exec] at hx
    split at hx
    · cases hx
      exact .refl s
    next f fs hf =>
      cases f with
      | startInLoop =>
        obtain ⟨hc, hh, hr⟩ := startInLoop_same (s := { s with pending := fs }) hx
        exact ⟨hc, hh, hr⟩
      | stopInLoop =>
        obtain ⟨⟨hc, hh, hr⟩, -⟩ := stopInLoop_ends (s := { s with pending := fs }) hx
        exact ⟨hc, hh, hr⟩
      | resetChannel =>
        obtain ⟨-, -, hx⟩ := bind_eq_ok hx
        cases hx
        exact ⟨rfl, rfl, fun _ l hl => by cases hl⟩
  | next soError selfConnect =>
    simp only [exec] at hx
    split at hx
    next htodo =>
      cases hx
      exact .inl ⟨if_neg (by simp [htodo]), .refl s⟩
    next cs htodo =>
      obtain ⟨⟨hc, hh, hr⟩, -⟩ := handleError_ends (s := { s with todo := cs }) hx
      exact .inl ⟨if_neg (by simp [htodo]), hc, hh, hr⟩
    next cs htodo =>
      rcases (handleWrite_cases (s := { s with todo := cs }) hx).2 with
        ⟨⟨hc, hh, hr⟩, hnot⟩ | ⟨⟨rfl, rfl, hc, l, hl⟩, hst, hst', hc', hh, hr⟩
      · exact .inl ⟨if_neg fun h => hnot h.2, hc, hh, hr⟩
      · refine .inr ⟨⟨l.fd, ?_⟩, hst, hst', hc', hh, hr⟩
        have hl' : s.channel = some l := hl
        simp [hands, htodo, show s.state = _ from hst, show s.connect = _ from hc, hl']

theorem hands_of_isCall {op : Op} (hop : op.isCall = true) : s.hands op = none := by
  cases op with
  | next soError selfConnect => cases hop
  | _ => rfl

/-- A call of the client does not hand over a socket. -/
theorem call_same {op : Op} (hop : op.isCall = true) (hx : s.exec op = .ok s') :
    s'.handed = s.handed ∧ (s.InRange → s'.InRange) := by
  cases op with
  | start errno =>
    obtain ⟨-, hh, hr⟩ := startInLoop_same (s := { s with connect := true }) hx
    exact ⟨hh, hr⟩
  | restart errno =>
    obtain ⟨-, hh, hr⟩ := startInLoop_same hx
    exact ⟨hh, hr⟩
  | stop | callStart | callStop => cases hx; exact ⟨rfl, id⟩
  | push i | poll error write | timer errno | functor errno | next soError selfConnect => cases hop

theorem startInLoop_disconnected {errno : Errno}
    (hx : s.startInLoop errno = .ok s') : s.state = .kDisconnected := by
  by_contra hn
  rw [startInLoop, ensure_neg hn] at hx
  cases hx

/-- A connector that has handed over a socket stays as it is until `restart`. -/
theorem connected_step (h : s.Inv) (hst : s.state = .kConnected) {op : Op}
    (hop : ∀ errno, op ≠ .restart errno) (hx : s.exec op = .ok s') :
    s'.state = .kConnected ∧ (.resetChannel ∉ s.pending → .resetChannel ∉ s'.pending) := by
  have hne : s.state ≠ .kDisconnected := by rw [hst]; decide
  have hne' : s.state ≠ .kConnecting := by rw [hst]; decide
  cases op with
  | start errno => exact absurd (startInLoop_disconnected hx) hne
  | stop => cases hx; exact ⟨hst, fun hp => by simpa using hp⟩
  | callStart | callStop => cases hx; exact ⟨hst, id⟩
  | restart errno => exact absurd rfl (hop errno)
  | push i =>
    cases hx
    refine ⟨hst, fun hp hmem => ?_⟩
    rw [List.mem_append, Option.mem_toList] at hmem
    rcases hmem with hmem | hmem
    · exact hp hmem
    · exact h.calling (List.mem_of_getElem? hmem)
  | poll error write => cases hx; exact ⟨hst, id⟩
  | timer errno => exact absurd (startInLoop_disconnected hx) hne
  | functor errno =>
    simp only [exec] at hx
    split at hx
    · cases hx
      exact ⟨hst, id⟩
    next f fs hf =>
      have hpending : .resetChannel ∉ s.pending → .resetChannel ∉ fs := fun hp hmem =>
        hp (by rw [hf]; exact List.mem_cons_of_mem _ hmem)
      cases f with
      | startInLoop => exact absurd (startInLoop_disconnected hx) hne
      | stopInLoop =>
        rw [runFunctor, stopInLoop, if_neg hne'] at hx
        cases hx
        exact ⟨hst, hpending⟩
      | resetChannel =>
        obtain ⟨-, -, hx⟩ := bind_eq_ok hx
        cases hx
        exact ⟨hst, hpending⟩
  | next soError selfConnect =>
    by_cases htodo : s.todo = []
    · simp only [exec, htodo] at hx
      cases hx
      exact ⟨hst, id⟩
    · exact absurd hst (h.handling htodo).1

/-! ## A connector that was stopped -/

/-- Nobody will start the connector again, and an attempt in progress is about to be stopped. -/
structure Stopped (s : Connector) : Prop where
  calls : s.calls = []
  flag : s.state = .kConnected ∨ s.connect = false
  stopping : s.state = .kConnecting → .stopInLoop ∈ s.pending

namespace Stopped

theorem not_connecting (h : s.Stopped) (hp : s.pending = []) : s.state ≠ .kConnecting := by
  intro hst
  have hmem := h.stopping hst
  rw [hp] at hmem
  cases hmem

/-- When its functors have been run, the connector has no channel. -/
theorem channel_eq_none (h : s.Stopped) (hi : s.Inv) (hp : s.pending = []) : s.channel = none := by
  refine hi.channel_eq_none (h.not_connecting hp) ?_
  rw [hp]
  exact List.not_mem_nil

/-- Then no step of the connector is offered, unless a retry timer is left. -/
theorem not_enabled (h : s.Stopped) (hi : s.Inv) (hp : s.pending = []) (ht : s.timers = 0) {op : Op}
    (hop : op.isCall = false) : ¬ s.Enabled op := by
  have hch := h.channel_eq_none hi hp
  intro he
  cases op with
  | start errno | stop | callStart | callStop | restart errno => cases hop
  | push i =>
    have hlt : i < s.calls.length := he
    rw [h.calls] at hlt
    cases hlt
  | poll error write =>
    obtain ⟨-, c, hc, -⟩ := he
    rw [hch] at hc
    cases hc
  | timer errno => exact absurd ht (Nat.ne_of_gt he)
  | functor errno => exact he.2 hp
  | next soError selfConnect => exact he (hi.todo_eq_nil hch)

/-- `startInLoop` finds that it is not to connect. -/
theorem startInLoop_eq (h : s.Stopped) {errno : Errno} (hx : s.startInLoop errno = .ok s') :
    s' = s := by
  have hst := startInLoop_disconnected hx
  have hc : s.connect = false := h.flag.resolve_left (hst.trans_ne fun h => by cases h)
  simp only [startInLoop, ensure_pos hst, ok_bind, hc] at hx
  cases hx
  rfl

theorem popped (h : s.Stopped) {f : Functor} {fs : List Functor} (hp : s.pending = f :: fs)
    (hf : f ≠ .stopInLoop) : Stopped { s with pending := fs } := by
  refine ⟨h.calls, h.flag, fun hst => ?_⟩
  have hmem := h.stopping hst
  rw [hp] at hmem
  exact (List.mem_cons.1 hmem).resolve_left hf.symm

theorem step_flag (h : s.Stopped) (hi : s.Inv) {op : Op} (hop : op.isCall = false)
    (hx : s.exec op = .ok s') : s'.state = .kConnected ∨ s'.connect = false := by
  rcases h.flag with hst | hc
  · refine .inl (connected_step hi hst (fun errno heq => ?_) hx).1
    subst heq
    cases hop
  · right
    rcases exec_cases hop hx with ⟨-, hsame⟩ | ⟨-, hp⟩
    · exact hsame.connect.trans hc
    · exact hp.connect.trans hc

/-- After a function that ends the attempt. -/
theorem of_ends (h : s.Stopped) {s₀ : Connector} (he : Ends s₀ s') (hcalls : s₀.calls = s.calls)
    (hflag : s'.state = .kConnected ∨ s'.connect = false) : s'.Stopped :=
  ⟨by rw [he.calls, hcalls, h.calls], hflag, fun hst => absurd hst he.state⟩

/-- A step of the connector's own; an empty queue stays empty. -/
theorem step (h : s.Stopped) (hi : s.Inv) {op : Op} (hop : op.isCall = false)
    (hx : s.exec op = .ok s') : s'.Stopped ∧ (s.pending = [] → s'.pending = []) := by
  have hflag := h.step_flag hi hop hx
  cases op with
  | start errno | stop | callStart | callStop | restart errno => cases hop
  | push i =>
    simp only [exec, h.calls] at hx
    cases hx
    exact ⟨⟨rfl, h.flag, fun hst => by simpa using h.stopping hst⟩, fun hp => by simpa using hp⟩
  | poll error write =>
    cases hx
    exact ⟨⟨h.calls, h.flag, h.stopping⟩, id⟩
  | timer errno =>
    have hs : Stopped { s with timers := s.timers - 1 } := ⟨h.calls, h.flag, h.stopping⟩
    cases hs.startInLoop_eq hx
    exact ⟨hs, id⟩
  | functor errno =>
    simp only [exec] at hx
    split at hx
    next =>
      cases hx
      exact ⟨h, id⟩
    next f fs hf =>
      refine ⟨?_, fun hp => by rw [hf] at hp; cases hp⟩
      cases f with
      | startInLoop =>
        have hs := h.popped hf fun h => by cases h
        cases hs.startInLoop_eq hx
        exact hs
      | stopInLoop => exact h.of_ends (stopInLoop_ends hx).2 rfl hflag
      | resetChannel =>
        obtain ⟨-, -, hx⟩ := bind_eq_ok hx
        cases hx
        have hs := h.popped hf fun h => by cases h
        exact ⟨hs.calls, hs.flag, hs.stopping⟩
  | next soError selfConnect =>
    simp only [exec] at hx
    split at hx
    next =>
      cases hx
      exact ⟨h, id⟩
    next cs htodo =>
      have he := (handleError_ends hx).2
      refine ⟨h.of_ends he rfl hflag, fun hp => ?_⟩
      rw [he.rest (h.not_connecting hp)]
      exact hp
    next cs htodo =>
      have he := (handleWrite_cases hx).1
      refine ⟨h.of_ends he rfl hflag, fun hp => ?_⟩
      rw [he.rest (h.not_connecting hp)]
      exact hp

end Stopped

theorem hands_connecting {op : Op} {fd : Nat} (h : s.hands op = some fd) :
    s.state = .kConnecting ∧ s.connect = true ∧ op.isCall = false := by
  cases op with
  | next soError selfConnect =>
    simp only [hands] at h
    split at h
    next hc => exact ⟨hc.2.1, hc.2.2.2.2, rfl⟩
    next => cases h
  | _ => cases h

end Connector

end TinyMuduo

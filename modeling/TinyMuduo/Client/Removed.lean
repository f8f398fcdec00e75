import TinyMuduo.Client.Lifecycle

/-!
# Client.Removed

A client whose connection was removed and that does not reconnect.

`removeConnection` calls `restart` only if `retry_ && connect_`. Otherwise the connector is left in
`kConnected`, and `startInLoop` asserts `kDisconnected`. From there on nothing is asked of the
callers of `connect`: in the loop thread the call fails at once; a call in another thread leads to a
functor that fails when it is run, and until then it is one of `starts`.

* `Idle` — the connection was removed, and `restart` not called.
* `Connector.idle_step` and `Idle.exec` — what a step does in such a state.
* `client_removed_for_good` — the whole run.
-/

namespace TinyMuduo

/-! ## The connector -/

namespace Connector

open Result

/-- The calls of `start` in other threads whose `startInLoop` was not run. -/
def starts (s : Connector) : Nat := s.calls.count .startInLoop + s.pending.count .startInLoop

def Op.starts : Op → Nat
  | .callStart => 1
  | _ => 0

theorem startInLoop_assert {s : Connector} (hst : s.state = .kConnected) (errno : Errno) :
    s.startInLoop errno = .error .assertStart := by
  have hne : s.state ≠ .kDisconnected := hst.trans_ne fun h => by cases h
  rw [startInLoop, ensure_neg hne]
  rfl

theorem starts_push {s : Connector} {i : Nat} (hi : i < s.calls.length) :
    starts { s with calls := s.calls.eraseIdx i, pending := s.pending ++ s.calls[i]?.toList } =
      s.starts := by
  have hcount := (List.getElem_cons_eraseIdx_perm hi).count_eq .startInLoop
  rw [List.count_cons] at hcount
  simp only [starts, List.getElem?_eq_getElem hi, Option.toList_some, List.count_append,
    List.count_singleton]
  omega

/-- A connector that was left in `kConnected`. -/
structure Rested (s : Connector) : Prop where
  connected : s.state = .kConnected
  channel : s.channel = none
  todo : s.todo = []

/-- What a connector that was left in `kConnected` does, it does without leaving it, and no
`startInLoop` is run. -/
theorem idle_step {s s' : Connector} (h : s.Rested) {op : Op} (hop : ∀ errno, op ≠ .restart errno)
    (he : s.Enabled op) (hx : s.exec op = .ok s') :
    s'.Rested ∧ s'.starts = s.starts + op.starts := by
  obtain ⟨hst, hch, htodo⟩ := h
  cases op with
  | start errno =>
    have hfail := startInLoop_assert (s := { s with connect := true }) hst errno
    cases hx.symm.trans hfail
  | stop =>
    cases hx
    exact ⟨⟨hst, hch, htodo⟩, by simp [starts, Op.starts]⟩
  | callStart =>
    cases hx
    refine ⟨⟨hst, hch, htodo⟩, ?_⟩
    simp only [starts, Op.starts, List.count_append, List.count_singleton_self]
    omega
  | callStop =>
    cases hx
    exact ⟨⟨hst, hch, htodo⟩, by simp [starts, Op.starts]⟩
  | push i =>
    cases hx
    exact ⟨⟨hst, hch, htodo⟩, starts_push he⟩
  | restart errno => exact absurd rfl (hop errno)
  | poll error write =>
    obtain ⟨-, c, hc, -⟩ := he
    rw [hch] at hc
    cases hc
  | timer errno =>
    have hfail := startInLoop_assert (s := { s with timers := s.timers - 1 }) hst errno
    cases hx.symm.trans hfail
  | functor errno =>
    simp only [exec] at hx
    split at hx
    next =>
      cases hx
      exact ⟨⟨hst, hch, htodo⟩, rfl⟩
    next f fs hf =>
      cases f with
      | startInLoop =>
        have hfail := startInLoop_assert (s := { s with pending := fs }) hst errno
        cases hx.symm.trans hfail
      | stopInLoop =>
        have hrest := (stopInLoop_ends hx).2.rest (hst.trans_ne fun h => by cases h)
        subst hrest
        exact ⟨⟨hst, hch, htodo⟩, by simp [starts, Op.starts, hf]⟩
      | resetChannel =>
        obtain ⟨-, -, hx⟩ := bind_eq_ok hx
        cases hx
        exact ⟨⟨hst, rfl, htodo⟩, by simp [starts, Op.starts, hf]⟩
  | next soError selfConnect => exact absurd htodo he

theorem hands_of_connected {s : Connector} (hst : s.state = .kConnected) (op : Op) :
    s.hands op = none := by
  cases hh : s.hands op with
  | none => rfl
  | some fd => cases (hands_connecting hh).1.symm.trans hst

end Connector

/-! ## The client -/

namespace TcpClient

open Result

variable {kind : PollerKind} {writeComplete : Bool}

/-- The last connection was removed, and `restart` was not called. -/
structure Idle (kind : PollerKind) (s : TcpClient) : Prop where
  empty : s.connection = none
  noRestart : s.restarting = false
  rested : s.connector.Rested
  conns : ∀ (j : Nat) c, s.conns[j]? = some c → c.watch.Settled kind ∧ c.watch.owned = false
  freed : s.freed = true → s.destroyed = true

/-- The calls of `connect` in other threads whose `startInLoop` was not run. -/
def starts (s : TcpClient) : Nat := s.calls.count .connect + s.connector.starts

/-- `connect` is called in another thread. -/
def Op.starts : Op → Nat
  | .callConnect => 1
  | _ => 0

/-- The step leaves the client idle, makes no connection and runs no `startInLoop`. -/
structure Kept (kind : PollerKind) (n : Nat) (s s' : TcpClient) : Prop where
  idle : Idle kind s'
  conns : s'.conns.length = s.conns.length
  starts : s'.starts = s.starts + n

theorem Idle.connectorStep {s s' : TcpClient} (hi : Idle kind s) (op : Connector.Op)
    (hop : ∀ errno, op ≠ .restart errno) (he : s.connector.Enabled op)
    (hx : connectorStep kind writeComplete s op = .ok s') : Kept kind op.starts s s' := by
  obtain ⟨-, -, hx⟩ := bind_eq_ok hx
  obtain ⟨c, hc, hx⟩ := bind_eq_ok hx
  rw [Connector.hands_of_connected hi.rested.connected] at hx
  cases hx
  obtain ⟨hrest, hstarts⟩ := Connector.idle_step hi.rested hop he (mapError_eq_ok hc)
  exact ⟨⟨hi.empty, hi.noRestart, hrest, hi.conns, hi.freed⟩, rfl, by
    simp only [TcpClient.starts, hstarts, Nat.add_assoc]⟩

theorem Idle.release {s s' : TcpClient} (hi : Idle kind s) (hx : s.release = .ok s') :
    Kept kind 0 s s' := by
  unfold TcpClient.release at hx
  split at hx
  next hlast =>
    obtain ⟨-, -, hx⟩ := bind_eq_ok hx
    cases hx
    exact ⟨⟨hi.empty, hi.noRestart, hi.rested, hi.conns, fun _ => hlast.1⟩, rfl, rfl⟩
  next =>
    cases hx
    exact ⟨hi, rfl, rfl⟩

theorem Idle.connStep {s s' : TcpClient} (hi : Idle kind s) {j : Nat} {op : WatchOp}
    (he : s.Enabled (.conn j op)) (hs : Careful kind s (.conn j op))
    (hx : s.connStep kind j op = .ok s') : Kept kind 0 s s' := by
  obtain ⟨-, hown, ⟨c, hj, hen⟩, -⟩ := he
  obtain ⟨hset, ho⟩ := hi.conns j c hj
  simp only [TcpClient.connStep, show s.conns[j]? = some c from hj] at hx
  obtain ⟨w, hw, hx⟩ := bind_eq_ok hx
  have hw' := mapError_eq_ok hw
  -- a connection that nobody owns has called `closeCallback_`
  have hcl : callsClose c.watch op = false := by
    cases hcl : callsClose c.watch op with
    | false => rfl
    | true => cases ho.symm.trans (hset.owned (.inr (Watch.mem_of_callsClose hcl)))
  have hset' := hset.step hown hen (hset.sound (hs c hj)) hw'
  have ho' := (Watch.quiet_of_exec hset.up hown hen hcl hw').owned.trans ho
  rw [hcl] at hx
  cases hx
  refine ⟨⟨hi.empty, hi.noRestart, hi.rested, fun i d hd => ?_, hi.freed⟩, List.length_set, rfl⟩
  rw [List.getElem?_set] at hd
  split at hd
  · split at hd
    · cases hd
      exact ⟨hset', ho'⟩
    · cases hd
  · exact hi.conns i d hd

/-- `retry_`, `connect_` and the calls of other threads. -/
theorem Idle.flags {s : TcpClient} (hi : Idle kind s) (retry connect : Bool)
    (calls : List ThreadCall) :
    Idle kind { s with retry := retry, connect := connect, calls := calls } :=
  ⟨hi.empty, hi.noRestart, hi.rested, hi.conns, hi.freed⟩

theorem Idle.exec {s s' : TcpClient} (hi : Idle kind s) {op : Op} (he : s.Enabled op)
    (hs : Careful kind s op) (hx : exec kind writeComplete s op = .ok s') :
    Kept kind op.starts s s' := by
  cases op with
  | enableRetry => cases hx; exact ⟨hi.flags .., rfl, rfl⟩
  | callConnect =>
    cases hx
    refine ⟨hi.flags .., rfl, ?_⟩
    simp only [starts, Op.starts, List.count_append, List.count_singleton_self]
    omega
  | callStop =>
    cases hx
    exact ⟨hi.flags .., rfl, by simp [starts, Op.starts]⟩
  | connect errno =>
    simp only [TcpClient.exec] at hx
    have hk := (hi.flags s.retry true s.calls).connectorStep (.start errno) (fun _ h => by cases h)
      trivial hx
    exact ⟨hk.idle, hk.conns, hk.starts⟩
  | stop =>
    simp only [TcpClient.exec] at hx
    have hk := (hi.flags s.retry false s.calls).connectorStep .stop (fun _ h => by cases h)
      trivial hx
    exact ⟨hk.idle, hk.conns, hk.starts⟩
  | disconnect =>
    simp only [TcpClient.exec, hi.empty] at hx
    cases hx
    exact ⟨⟨rfl, hi.noRestart, hi.rested, hi.conns, hi.freed⟩, rfl, rfl⟩
  | proceed i =>
    have hlt : i < s.calls.length := he
    have hcount := (List.getElem_cons_eraseIdx_perm hlt).count_eq .connect
    rw [List.count_cons] at hcount
    have hi' := hi.flags s.retry s.connect (s.calls.eraseIdx i)
    simp only [TcpClient.exec, List.getElem?_eq_getElem hlt] at hx
    cases hcall : s.calls[i] with
    | connect =>
      -- the call has reached the connector
      rw [hcall] at hx hcount
      have hk := hi'.connectorStep .callStart (fun _ h => by cases h) trivial hx
      refine ⟨hk.idle, hk.conns, hk.starts.trans ?_⟩
      simp only [starts, Op.starts, Connector.Op.starts] at hcount ⊢
      simp at hcount
      omega
    | stop =>
      rw [hcall] at hx hcount
      have hk := hi'.connectorStep .callStop (fun _ h => by cases h) trivial hx
      refine ⟨hk.idle, hk.conns, hk.starts.trans ?_⟩
      simp only [starts, Op.starts, Connector.Op.starts] at hcount ⊢
      simp at hcount
      omega
  | restart errno => cases hi.noRestart.symm.trans he
  | connector op =>
    obtain ⟨s₁, hstep, hrel⟩ := bind_eq_ok hx
    have hk := hi.connectorStep op (fun errno heq => by subst heq; cases he.2.1) he.1 hstep
    have hk' := hk.idle.release hrel
    have hop : op.starts = 0 := by
      cases op with
      | callStart => cases he.2.1
      | _ => rfl
    exact ⟨hk'.idle, hk'.conns.trans hk.conns, by rw [hk'.starts, hk.starts, hop]; rfl⟩
  | conn j op => exact hi.connStep he hs hx
  | destroy unique =>
    simp only [TcpClient.exec, TcpClient.destroy] at hx
    split at hx
    next j hj => cases hi.empty.symm.trans hj
    next =>
      have hi' : Idle kind { s with destroyed := true, keeper := true } :=
        ⟨hi.empty, hi.noRestart, hi.rested, hi.conns, fun _ => rfl⟩
      have hk := hi'.connectorStep .stop (fun _ h => by cases h) trivial hx
      exact ⟨hk.idle, hk.conns, hk.starts⟩
  | removeConnector =>
    have hi' : Idle kind { s with keeper := false } :=
      ⟨hi.empty, hi.noRestart, hi.rested, hi.conns, hi.freed⟩
    have hk := hi'.release hx
    exact ⟨hk.idle, hk.conns, hk.starts⟩

/-- The step in which the connection is removed. -/
theorem Idle.of_removed {s s' : TcpClient} (h : Inv kind s) (h' : Inv kind s') {j : Nat}
    {op : WatchOp} (hx : s.connStep kind j op = .ok s') (hd : s.destroyed = false)
    (hheld : s.connection = some j) (hremoved : s'.connection = none)
    (hretry : (s.retry && s.connect) = false) :
    Idle kind s' ∧ s'.conns.length = s.conns.length := by
  obtain ⟨-, c, hj, ho⟩ := h.holds hd j hheld
  have hc := h.conns j c hj
  have hconns : ∀ (i : Nat) d, s'.conns[i]? = some d →
      d.watch.Settled kind ∧ d.watch.owned = false := by
    intro i d hi
    have hd' := h'.conns i d hi
    exact ⟨hd'.settled, hd'.not_owned (by rw [hremoved]; exact fun h => by cases h)⟩
  simp only [TcpClient.connStep, hj] at hx
  obtain ⟨w, -, hx⟩ := bind_eq_ok hx
  split at hx
  next hcl =>
    obtain ⟨-, -, hx⟩ := bind_eq_ok hx
    obtain ⟨-, -, hx⟩ := bind_eq_ok hx
    cases hx
    -- the connection is removed after `resetChannel`
    have hne : c.watch.todo ≠ [] := by
      rw [Bool.and_eq_true] at hcl
      exact List.ne_nil_of_mem (Watch.mem_of_callsClose hcl.1)
    have hst := hc.connected ho
    have hch := h.connector.channel_eq_none (hst.trans_ne fun h => by cases h) (hc.reset ho hne)
    exact ⟨⟨rfl, hretry, ⟨hst, hch, h.connector.todo_eq_nil hch⟩, hconns, fun hf =>
      (h.freed hf).1⟩, List.length_set⟩
  next =>
    cases hx
    cases hheld.symm.trans hremoved

/-- **A connection that is not restarted is the last one.** When the connection of a client is
removed and `retry_ && connect_` is false, the connector stays in `kConnected`. In every run from
there, with `connect` called by any thread at any time: no connection is made; a call in the loop
thread fails the assertion of `startInLoop`; each call in another thread is on its way still
(`starts`), and when its `startInLoop` is the next functor, that fails the assertion. -/
theorem client_removed_for_good {ops ops' : List Op} {s s₁ s₂ : TcpClient} {j : Nat} {op : WatchOp}
    (hr : ((machine kind writeComplete).under (Sound kind)).Run init ops s)
    (hd : s.destroyed = false) (hheld : s.connection = some j)
    (hretry : (s.retry && s.connect) = false) (he : s.Enabled (.conn j op))
    (hs : Sound kind s (.conn j op)) (hx : exec kind writeComplete s (.conn j op) = .ok s₁)
    (hremoved : s₁.connection = none)
    (hr' : ((machine kind writeComplete).under (Careful kind)).Run s₁ ops' s₂) :
    s₂.conns.length = s.conns.length ∧ s₂.connection = none ∧
      (s₂.destroyed = false → ∀ errno, exec kind writeComplete s₂ (.connect errno) =
        .error (.connector .assertStart)) ∧
      s₂.starts = s₁.starts + (ops'.map Op.starts).sum ∧
      (s₂.freed = false → s₂.connector.pending.head? = some .startInLoop → ∀ errno,
        exec kind writeComplete s₂ (.connector (.functor errno)) =
          .error (.connector .assertStart)) := by
  have h := run_inv hr
  have h₁ : Inv kind s₁ := h.exec_ok he hs hx
  obtain ⟨hi₁, hlen₁⟩ := Idle.of_removed h h₁ hx hd hheld hremoved hretry
  -- no step from an idle state leaves it
  have hstart : Idle kind s₁ ∧ s₁.conns.length = s.conns.length ∧
      s₁.starts = s₁.starts + (([] : List Op).map Op.starts).sum := ⟨hi₁, hlen₁, rfl⟩
  have hrun := hr'.keeps_trace (I := fun as t => Idle kind t ∧ t.conns.length = s.conns.length ∧
    t.starts = s₁.starts + (as.map Op.starts).sum) (fun as t op' t' ht he' hx' => by
      obtain ⟨hi, hlen, hstarts⟩ := ht
      have hk := hi.exec he'.1 he'.2 hx'
      refine ⟨hk.idle, hk.conns.trans hlen, ?_⟩
      rw [hk.starts, hstarts, List.map_append, List.sum_append, Nat.add_assoc]
      simp) hstart
  rw [List.nil_append] at hrun
  obtain ⟨hi, hlen, hstarts⟩ := hrun
  have hst := hi.rested.connected
  refine ⟨hlen, hi.empty, fun hd₂ errno => ?_, hstarts, fun hf hhead errno => ?_⟩
  · have hf : s₂.freed = false := by
      cases hf : s₂.freed with
      | false => rfl
      | true => cases hd₂.symm.trans (hi.freed hf)
    have hfail := Connector.startInLoop_assert
      (s := { s₂.connector with connect := true }) hst errno
    simp only [exec, TcpClient.connectorStep, ensure_pos hf, ok_bind, Connector.exec, hfail]
    rfl
  · obtain ⟨fs, hfs⟩ : ∃ fs, s₂.connector.pending = .startInLoop :: fs := by
      cases hp : s₂.connector.pending with
      | nil => rw [hp] at hhead; cases hhead
      | cons f fs => rw [hp] at hhead; cases hhead; exact ⟨fs, rfl⟩
    have hfail := Connector.startInLoop_assert (s := { s₂.connector with pending := fs }) hst errno
    simp only [exec, TcpClient.connectorStep, ensure_pos hf, ok_bind, Connector.exec, hfs,
      Connector.runFunctor, hfail]
    rfl

/-- The peer closes the connection of a client without `enableRetry`. -/
def closing : List Op :=
  [.connect Connector.EINPROGRESS, .connector (.poll false true), .connector (.next 0 false),
    .connector (.functor 0), .conn 0 (.poll POLLIN), .conn 0 (.next (.bytes []) (.count 0))]

/-- It calls `closeCallback_`. -/
def closed : Op := .conn 0 (.next (.bytes []) (.count 0))

/-- Then another thread calls `connect`. -/
def connectAgain : List Op := [.callConnect, .proceed 0, .connector (.push 0)]

theorem client_removed_for_good_closing :
    ∃ s s₁ s₂, ((machine .epoll false).under (Sound .epoll)).Run init closing s ∧
      exec .epoll false s closed = .ok s₁ ∧
      ((machine .epoll false).under (Careful .epoll)).Run s₁ connectAgain s₂ ∧
      s₂.conns.length = 1 ∧ s₂.starts = s₁.starts + 1 ∧
      ∀ errno, exec .epoll false s₂ (.connector (.functor errno)) =
        .error (.connector .assertStart) := by
  obtain ⟨s, hr, hobs⟩ := Machine.Run.of_replay ((machine .epoll false).under (Sound .epoll)) init
    closing (fun s => decide (s.destroyed = false ∧ s.connection = some 0 ∧
      (s.retry && s.connect) = false ∧ s.conns.length = 1 ∧ s.Enabled closed ∧
      Sound .epoll s closed ∧
      (exec .epoll false s closed).toOption.map (fun s₁ => (s₁.connection,
        (((machine .epoll false).under (Careful .epoll)).replay s₁ connectAgain).map fun s₂ =>
          (s₂.freed, s₂.connector.pending.head?))) =
        some (none, some (false, some .startInLoop))))
    true (by decide +kernel)
  obtain ⟨hd, hheld, hretry, hlen, he, hs, hobs⟩ := of_decide_eq_true hobs
  cases hx : exec .epoll false s closed with
  | error e =>
    rw [hx] at hobs
    cases hobs
  | ok s₁ =>
    rw [hx] at hobs
    obtain ⟨hremoved, hobs⟩ := Prod.mk.inj (Option.some.inj hobs)
    obtain ⟨s₂, hr', hobs⟩ := Machine.Run.of_replay _ s₁ connectAgain _ _ hobs
    obtain ⟨hf, hhead⟩ := Prod.mk.inj hobs
    obtain ⟨hlen', -, -, hstarts, hfail⟩ :=
      client_removed_for_good hr hd hheld hretry he hs hx hremoved hr'
    exact ⟨s, s₁, s₂, hr, hx, hr', hlen'.trans hlen, hstarts, hfail hf hhead⟩

end TcpClient
end TinyMuduo

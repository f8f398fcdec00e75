import TinyMuduo.Client.Handover

/-!
# Client.Lifecycle

The connections of a `TcpClient`, one after the other.

`Inv` is what every step keeps: the client holds the last connection as long as that was not
removed, the connector rests meanwhile, and after the destructor nobody calls the client. A
connection that has called `closeCallback_` is no longer `owned`, and then it is closed. A connector
whose pointers are gone has nothing left in the loop (`Gone`).

The steps of the connector and of a connection are treated once each (`Inv.connectorStep`,
`Inv.connStep`); the functions of the client are made of them.
-/

namespace TinyMuduo
namespace TcpClient

open Result

variable {kind : PollerKind} {writeComplete : Bool} {s s' : TcpClient}

/-- What the client may rely on in a connection that it has made. -/
structure ConnInv (kind : PollerKind) (s : TcpClient) (j : Nat) (c : Conn) : Prop where
  settled : c.watch.Settled kind
  held : c.watch.owned = true → s.connection = some j
  callback : c.watch.owned = true →
    c.closeCallback = if s.destroyed then .detail else .removeConnection
  connected : c.watch.owned = true → s.connector.state = .kConnected
  /-- What happens to the connection happens after `resetChannel`. -/
  reset : c.watch.owned = true → c.watch.todo ≠ [] → .resetChannel ∉ s.connector.pending
  number : c.connId = wrap32 (j + 1)

/-- After the destructor. -/
structure Gone (s : TcpClient) : Prop where
  calls : s.calls = []
  stopped : s.connector.Stopped
  released : s.keeper = false → s.connector.pending = []

structure Inv (kind : PollerKind) (s : TcpClient) : Prop where
  connector : s.connector.Inv
  inRange : s.connector.InRange
  conns : ∀ (j : Nat) c, s.conns[j]? = some c → ConnInv kind s j c
  holds : s.destroyed = false → ∀ j, s.connection = some j →
    j + 1 = s.conns.length ∧ ∃ c, s.conns[j]? = some c ∧ c.watch.owned = true
  restart : s.restarting = true → s.destroyed = false ∧ s.connection = none ∧
    s.connector.state = .kConnected ∧ .resetChannel ∉ s.connector.pending
  gone : s.destroyed = true → Gone s
  freed : s.freed = true → s.destroyed = true ∧ s.keeper = false ∧ s.connector.timers = 0
  names : s.nextConnId = wrap32 (s.conns.length + 1)
  handed : s.connector.handed = s.conns.length

theorem inv_init : Inv kind init where
  connector := Connector.inv_init
  inRange := fun l hl => by cases hl
  conns := fun j c hc => by cases hc
  holds := fun _ j hj => by cases hj
  restart := fun h => by cases h
  gone := fun h => by cases h
  freed := fun h => by cases h
  names := (wrap32_of_fits (by decide)).symm
  handed := rfl

theorem ConnInv.of_eq {j : Nat} {c : Conn} (h : ConnInv kind s j c)
    (hconn : s'.connection = s.connection) (hd : s'.destroyed = s.destroyed)
    (hc : s'.connector = s.connector) : ConnInv kind s' j c where
  settled := h.settled
  held := fun ho => hconn.trans (h.held ho)
  callback := fun ho => by rw [hd]; exact h.callback ho
  connected := fun ho => by rw [hc]; exact h.connected ho
  reset := fun ho ht => by rw [hc]; exact h.reset ho ht
  number := h.number

theorem ConnInv.of_not_owned {j : Nat} {c : Conn} (h : c.watch.Settled kind)
    (ho : c.watch.owned = false) (hid : c.connId = wrap32 (j + 1)) : ConnInv kind s j c where
  settled := h
  held := fun h' => by rw [ho] at h'; cases h'
  callback := fun h' => by rw [ho] at h'; cases h'
  connected := fun h' => by rw [ho] at h'; cases h'
  reset := fun h' => by rw [ho] at h'; cases h'
  number := hid

theorem ConnInv.not_owned {j : Nat} {c : Conn} (h : ConnInv kind s j c)
    (hj : s.connection ≠ some j) : c.watch.owned = false := by
  cases ho : c.watch.owned with
  | false => rfl
  | true => exact absurd (h.held ho) hj

/-- What keeps the invariant when a connection changes. -/
theorem ConnInv.changed {j : Nat} {c c' : Conn} (h : ConnInv kind s j c)
    (hset : c'.watch.Settled kind) (ho : c'.watch.owned = c.watch.owned)
    (hcb : c'.closeCallback = c.closeCallback) (hid : c'.connId = c.connId)
    (hreset : c.watch.owned = true → c'.watch.todo ≠ [] → .resetChannel ∉ s.connector.pending) :
    ConnInv kind s j c' where
  settled := hset
  held := fun h' => h.held (ho ▸ h')
  callback := fun h' => hcb.trans (h.callback (ho ▸ h'))
  connected := fun h' => h.connected (ho ▸ h')
  reset := fun h' => hreset (ho ▸ h')
  number := hid.trans h.number

/-! ## Steps of the connector -/

/-- The connector stays connected. -/
def Rests (c c' : Connector) : Prop :=
  c.state = .kConnected →
    c'.state = .kConnected ∧ (.resetChannel ∉ c.pending → .resetChannel ∉ c'.pending)

theorem ConnInv.rests {j : Nat} {c : Conn} (h : ConnInv kind s j c)
    {connector : Connector} (hr : s.connection ≠ none → Rests s.connector connector) :
    ConnInv kind { s with connector := connector } j c := by
  have hne : c.watch.owned = true → s.connection ≠ none := fun ho => by
    rw [h.held ho]
    exact fun h => by cases h
  exact ⟨h.settled, h.held, h.callback, fun ho => (hr (hne ho) (h.connected ho)).1,
    fun ho ht => (hr (hne ho) (h.connected ho)).2 (h.reset ho ht), h.number⟩

/-- The connector has made a step in which no socket was handed over. -/
theorem Inv.rests (h : Inv kind s) {c : Connector} (hc : c.Inv)
    (hrange : c.InRange) (hh : c.handed = s.connector.handed)
    (hr : s.connection ≠ none ∨ s.restarting = true → Rests s.connector c) (hfree : s.freed = false)
    (hgone : s.destroyed = true → c.Stopped ∧ (s.connector.pending = [] → c.pending = [])) :
    Inv kind { s with connector := c } where
  connector := hc
  inRange := hrange
  conns := fun j d hd => (h.conns j d hd).rests fun hne => hr (.inl hne)
  holds := h.holds
  restart := fun hre => by
    obtain ⟨hd, hn, hst, hp⟩ := h.restart hre
    obtain ⟨hst', hp'⟩ := hr (.inr hre) hst
    exact ⟨hd, hn, hst', hp' hp⟩
  gone := fun hd =>
    ⟨(h.gone hd).calls, (hgone hd).1, fun hk => (hgone hd).2 ((h.gone hd).released hk)⟩
  freed := fun hf => by cases hfree.symm.trans hf
  names := h.names
  handed := hh.trans h.handed

theorem wrap32_succ (x : Int) : wrap32 (wrap32 x + 1) = wrap32 (x + 1) := Int.bmod_add_bmod

theorem connectEstablished_new (kind : PollerKind) (writeComplete : Bool) (sockfd : Nat) :
    ∃ w, (Watch.init (.new sockfd writeComplete)).exec kind .connectEstablished = .ok w ∧
      w.Settled kind ∧ w.owned = true ∧ w.todo = [] := by
  obtain ⟨w, hw⟩ : ∃ w,
      (Watch.init (.new sockfd writeComplete)).exec kind .connectEstablished = .ok w := ⟨_, rfl⟩
  obtain ⟨hset, ho, ht, -⟩ := Watch.settled_established rfl rfl hw
  exact ⟨w, hw, hset, ho, ht⟩

/-- The connector has handed over a socket. -/
theorem Inv.newConnection (h : Inv kind s) {c : Connector} (hc : c.Inv)
    (hp : s.connector.Handed c) (hd : s.destroyed = false) (sockfd : Nat) :
    ∃ s', newConnection kind writeComplete { s with connector := c } sockfd = .ok s' ∧
      Inv kind s' := by
  obtain ⟨w, hw, hset, ho, ht⟩ := connectEstablished_new kind writeComplete sockfd
  -- a connector that holds a connection is connected, and this one was connecting
  have hnone : s.connection = none := by
    cases hj : s.connection with
    | none => rfl
    | some j =>
      obtain ⟨-, d, hget, hown⟩ := h.holds hd j hj
      cases (h.conns j d hget).connected hown |>.symm.trans hp.connecting
  have hidle : s.restarting = false := by
    cases hre : s.restarting with
    | false => rfl
    | true => cases (h.restart hre).2.2.1.symm.trans hp.connecting
  refine ⟨_, by simp only [TcpClient.newConnection, ensure_pos hd, hw]; rfl, ?_⟩
  refine ⟨hc, hp.inRange h.inRange, fun j d hj => ?_, fun _ j hj => ?_, fun hre => ?_,
    fun hd' => ?_, fun hf => ?_, ?_, ?_⟩
  · rcases Nat.lt_trichotomy j s.conns.length with hlt | rfl | hgt
    · rw [List.getElem?_append_left hlt] at hj
      have hold := h.conns j d hj
      exact .of_not_owned hold.settled (hold.not_owned (by rw [hnone]; exact fun h => by cases h))
        hold.number
    · rw [List.getElem?_concat_length] at hj
      cases hj
      exact ⟨hset, fun _ => rfl, fun _ => by rw [hd]; rfl, fun _ => hp.connected,
        fun _ hne => absurd ht hne, h.names⟩
    · rw [List.getElem?_eq_none (by rw [List.length_append]; exact hgt)] at hj
      cases hj
  · cases hj
    exact ⟨by simp, _, List.getElem?_concat_length, ho⟩
  · cases hidle.symm.trans hre
  · cases hd.symm.trans hd'
  · cases hd.symm.trans (h.freed hf).1
  · simp only [List.length_append, List.length_singleton, h.names, wrap32_succ, Nat.cast_add,
      Nat.cast_one]
  · simp only [List.length_append, List.length_singleton, hp.handed h.inRange, h.handed]

theorem rests_of_exec {c c' : Connector} (h : c.Inv) {op : Connector.Op}
    (hop : ∀ errno, op ≠ .restart errno) (hx : c.exec op = .ok c') : Rests c c' :=
  fun hst => Connector.connected_step h hst hop hx

/-- What the loop still does with the connector, it does before the connector is destroyed. -/
theorem Inv.not_freed (h : Inv kind s) {op : Connector.Op}
    (he : s.connector.Enabled op) (hcall : op.isCall = true → s.destroyed = false) :
    s.freed = false := by
  cases hf : s.freed with
  | false => rfl
  | true =>
    obtain ⟨hd, hk, ht⟩ := h.freed hf
    have hg := h.gone hd
    cases hcl : op.isCall with
    | true => cases (hcall hcl).symm.trans hd
    | false => exact absurd he (hg.stopped.not_enabled h.connector (hg.released hk) ht hcl)

/-- A step in which the connector hands over no socket. -/
theorem connectorStep_eq {op : Connector.Op} {c : Connector}
    (hfree : s.freed = false) (hx : s.connector.exec op = .ok c)
    (hn : s.connector.hands op = none) :
    connectorStep kind writeComplete s op = .ok { s with connector := c } := by
  rw [connectorStep, ensure_pos hfree, ok_bind, hx, hn]
  rfl

/-- A step of the connector: its own, or a call of a client that is not destroyed. -/
theorem Inv.connectorStep (h : Inv kind s) (writeComplete : Bool)
    {op : Connector.Op} (he : s.connector.Enabled op) (hs : s.connector.Sound op)
    (hre : ∀ errno, op = .restart errno → s.connection = none ∧ s.restarting = false)
    (hcall : op.isCall = true → s.destroyed = false) :
    ∃ s', connectorStep kind writeComplete s op = .ok s' ∧ Inv kind s' := by
  obtain ⟨c, hx, hc⟩ := Connector.sound_safe s.connector op h.connector ⟨he, hs⟩
  have hx' : s.connector.exec op = .ok c := hx
  have hrests : s.connection ≠ none ∨ s.restarting = true → Rests s.connector c := by
    intro hw
    refine rests_of_exec h.connector (fun errno hop => ?_) hx'
    obtain ⟨hn, hr⟩ := hre errno hop
    rcases hw with hw | hw
    · exact hw hn
    · cases hr.symm.trans hw
  have hfree := h.not_freed he hcall
  cases hcl : op.isCall with
  | true =>
    obtain ⟨hh, hr⟩ := Connector.call_same hcl hx'
    refine ⟨_, connectorStep_eq hfree hx' (Connector.hands_of_isCall hcl),
      h.rests hc (hr h.inRange) hh hrests hfree fun hd => ?_⟩
    cases (hcall hcl).symm.trans hd
  | false =>
    rcases Connector.exec_cases hcl hx' with ⟨hn, hsame⟩ | ⟨⟨fd, hf⟩, hp⟩
    · exact ⟨_, connectorStep_eq hfree hx' hn,
        h.rests hc (hsame.inRange h.inRange) hsame.handed hrests hfree fun hd =>
          (h.gone hd).stopped.step h.connector hcl hx'⟩
    · rw [TcpClient.connectorStep, ensure_pos hfree, ok_bind, hx', hf]
      refine h.newConnection hc hp ?_ fd
      cases hd : s.destroyed with
      | false => rfl
      | true =>
        -- a stopped connector closes the socket itself
        obtain ⟨hst, hcon, -⟩ := Connector.hands_connecting hf
        rcases (h.gone hd).stopped.flag with hst' | hcon'
        · cases hst.symm.trans hst'
        · cases hcon.symm.trans hcon'

/-! ## Steps of a connection -/

/-- The step is made, or it stops on the bytes of a buffer. -/
def Checked (kind : PollerKind) : Except Fault TcpClient → Prop
  | .ok s => Inv kind s
  | .error e => ∃ f : Watch.Fault, e = .conn f ∧ f.ofBytes = true

theorem Checked.of_ok {x : Except Fault TcpClient} (h : ∃ s, x = .ok s ∧ Inv kind s) :
    Checked kind x := by
  obtain ⟨s, rfl, hs⟩ := h
  exact hs

theorem Inv.setConn (h : Inv kind s) {j : Nat} {c c' : Conn}
    (hj : s.conns[j]? = some c) (hc' : ConnInv kind s j c')
    (ho : s.destroyed = false → c'.watch.owned = c.watch.owned) :
    Inv kind { s with conns := s.conns.set j c' } where
  connector := h.connector
  inRange := h.inRange
  conns := fun i d hd => by
    rw [List.getElem?_set] at hd
    split at hd
    next hij =>
      subst hij
      split at hd
      · cases hd
        exact hc'.of_eq rfl rfl rfl
      · cases hd
    next => exact (h.conns i d hd).of_eq rfl rfl rfl
  holds := fun hd i hi => by
    obtain ⟨hlast, d, hget, hown⟩ := h.holds hd i hi
    rw [List.length_set]
    refine ⟨hlast, ?_⟩
    by_cases hij : j = i
    · subst hij
      cases hj.symm.trans hget
      have hlt := (List.getElem?_eq_some_iff.1 hj).1
      exact ⟨c', by simp [hlt], (ho hd).trans hown⟩
    · exact ⟨d, by rw [List.getElem?_set_ne hij]; exact hget, hown⟩
  restart := h.restart
  gone := fun hd => ⟨(h.gone hd).calls, (h.gone hd).stopped, (h.gone hd).released⟩
  freed := h.freed
  names := by rw [List.length_set]; exact h.names
  handed := by rw [List.length_set]; exact h.handed

/-- The connection that the client holds calls `removeConnection`. -/
theorem Inv.removeConnection (h : Inv kind s) {j : Nat} {c c' : Conn}
    (hj : s.conns[j]? = some c) (ho : c.watch.owned = true) (htodo : c.watch.todo ≠ [])
    (hcb : c.closeCallback = .removeConnection) (hset : c'.watch.Settled kind)
    (ho' : c'.watch.owned = false) (hid : c'.connId = c.connId) :
    ∃ s', { s with conns := s.conns.set j c' }.removeConnection j = .ok s' ∧ Inv kind s' := by
  have hc := h.conns j c hj
  have hd : s.destroyed = false := by
    cases hd : s.destroyed with
    | false => rfl
    | true =>
      have hcb' := hc.callback ho
      rw [hcb, hd] at hcb'
      cases hcb'
  have hheld := hc.held ho
  refine ⟨_, by simp only [TcpClient.removeConnection, ensure_pos hd, ensure_pos hheld]; rfl, ?_⟩
  refine ⟨h.connector, h.inRange, fun i d hi => ?_, fun _ i hi => (by cases hi),
    fun _ => ⟨hd, rfl, hc.connected ho, hc.reset ho htodo⟩, fun hd' => ?_, h.freed, ?_, ?_⟩
  · rw [List.getElem?_set] at hi
    split at hi
    next hij =>
      subst hij
      split at hi
      · cases hi
        exact .of_not_owned hset ho' (hid.trans hc.number)
      · cases hi
    next hij =>
      have hd := h.conns i d hi
      refine .of_not_owned hd.settled (hd.not_owned fun hheld' => hij ?_) hd.number
      exact Option.some.inj (hheld.symm.trans hheld')
  · cases hd.symm.trans hd'
  · rw [List.length_set]; exact h.names
  · rw [List.length_set]; exact h.handed

theorem Inv.connStep (h : Inv kind s) {j : Nat} {c : Conn}
    (hj : s.conns[j]? = some c) (op : WatchOp) (hown : isOwn op = true) (he : c.watch.Enabled op)
    (hs : c.watch.Sound kind op)
    (hturn : isTurn op = true → s.connection = some j → .resetChannel ∉ s.connector.pending) :
    Checked kind (s.connStep kind j op) := by
  have hc := h.conns j c hj
  simp only [TcpClient.connStep, hj]
  cases hx : c.watch.exec kind op with
  | error f => exact ⟨f, rfl, hc.settled.inv.exec_error he hx⟩
  | ok w =>
    have hset := hc.settled.step hown he hs hx
    rw [show (Except.ok w).mapError Fault.conn = .ok w from rfl, ok_bind]
    cases hcl : callsClose c.watch op with
    | false =>
      obtain ⟨-, -, ho, -, htodo⟩ := Watch.quiet_of_exec hc.settled.up hown he hcl hx
      refine h.setConn hj (hc.changed hset ho rfl rfl fun hown' hne => ?_) fun _ => ho
      rcases htodo with heq | hne' | ht
      · exact hc.reset hown' (heq ▸ hne)
      · exact hc.reset hown' hne'
      · exact hturn ht (hc.held hown')
    | true =>
      obtain ⟨rest, htodo, rfl⟩ := Watch.closeCallback_of_exec hcl hx
      have ho := hc.settled.owned (.inr (Watch.mem_of_callsClose hcl))
      cases hcb : c.closeCallback with
      | removeConnection =>
        exact .of_ok (h.removeConnection hj ho (by rw [htodo]; exact fun h => by cases h) hcb hset
          rfl rfl)
      | detail =>
        refine h.setConn hj (.of_not_owned hset rfl hc.number) fun hd => ?_
        have hcb' := hc.callback ho
        rw [hcb, hd] at hcb'
        cases hcb'

/-! ## The client -/

/-- `retry_`, `connect_` and the calls of other threads, as long as the client exists. -/
theorem Inv.flags (h : Inv kind s) (retry connect : Bool) (calls : List ThreadCall)
    (hd : s.destroyed = true → calls = []) :
    Inv kind { s with retry := retry, connect := connect, calls := calls } where
  connector := h.connector
  inRange := h.inRange
  conns := fun j c hc => (h.conns j c hc).of_eq rfl rfl rfl
  holds := h.holds
  restart := h.restart
  gone := fun hd' => ⟨hd hd', (h.gone hd').stopped, (h.gone hd').released⟩
  freed := h.freed
  names := h.names
  handed := h.handed

theorem Inv.restarted (h : Inv kind s) :
    Inv kind { s with restarting := false } where
  connector := h.connector
  inRange := h.inRange
  conns := fun j c hc => (h.conns j c hc).of_eq rfl rfl rfl
  holds := h.holds
  restart := fun hre => by cases hre
  gone := fun hd => ⟨(h.gone hd).calls, (h.gone hd).stopped, (h.gone hd).released⟩
  freed := h.freed
  names := h.names
  handed := h.handed

/-- The last `ConnectorPtr` is given up when no functor of the connector is left. -/
theorem Inv.release (h : Inv kind s) : ∃ s', s.release = .ok s' ∧ Inv kind s' := by
  unfold TcpClient.release
  split
  next hlast =>
    obtain ⟨hd, hk, ht⟩ := hlast
    have hg := h.gone hd
    have hch := hg.stopped.channel_eq_none h.connector (hg.released hk)
    refine ⟨{ s with freed := true }, by rw [ensure_pos hch, ok_bind], ?_⟩
    exact ⟨h.connector, h.inRange, fun j c hc => (h.conns j c hc).of_eq rfl rfl rfl, h.holds,
      h.restart, fun _ => ⟨hg.calls, hg.stopped, hg.released⟩, fun _ => ⟨hd, hk, ht⟩, h.names,
      h.handed⟩
  next => exact ⟨s, rfl, h⟩

/-- The destructor while a connection is held: `closeCallback_` is replaced. -/
theorem Inv.detached (h : Inv kind s) {j : Nat} (hd : s.destroyed = false)
    (hre : s.restarting = false) (hcalls : s.calls = []) (hcalls' : s.connector.calls = [])
    (hpend : s.connector.pending = []) (hj : s.connection = some j) :
    Inv kind { s with
      destroyed := true
      conns := s.conns.modify j fun c => { c with closeCallback := .detail } } := by
  obtain ⟨-, c, hget, ho⟩ := h.holds hd j hj
  have hc := h.conns j c hget
  have hst := hc.connected ho
  have hstopped : s.connector.Stopped :=
    ⟨hcalls', .inl hst, fun hst' => by cases hst.symm.trans hst'⟩
  refine ⟨h.connector, h.inRange, fun i d hi => ?_, fun hd' => (by cases hd'), fun hre' => ?_,
    fun _ => ⟨hcalls, hstopped, fun _ => hpend⟩, fun hf => ?_, ?_, ?_⟩
  · rw [List.getElem?_modify] at hi
    obtain ⟨e, hget', rfl⟩ := Option.map_eq_some_iff.1 hi
    have he := h.conns i e hget'
    split
    · exact ⟨he.settled, he.held, fun _ => rfl, he.connected, he.reset, he.number⟩
    next hij =>
      exact .of_not_owned he.settled (he.not_owned fun hi =>
        hij (Option.some.inj (hj.symm.trans hi))) he.number
  · cases hre.symm.trans hre'
  · cases hd.symm.trans (h.freed hf).1
  · rw [List.length_modify]; exact h.names
  · rw [List.length_modify]; exact h.handed

/-- The destructor without a connection: the connector is stopped, and its timer set. -/
theorem Inv.stopped (h : Inv kind s) (hd : s.destroyed = false)
    (hre : s.restarting = false) (hcalls : s.calls = []) (hcalls' : s.connector.calls = [])
    (hj : s.connection = none) :
    ∃ s', TcpClient.connectorStep kind writeComplete
      { s with destroyed := true, keeper := true } .stop = .ok s' ∧ Inv kind s' := by
  have hfree : s.freed = false := by
    cases hf : s.freed with
    | false => rfl
    | true => cases hd.symm.trans (h.freed hf).1
  have hstopped : Connector.Stopped { s.connector with
      connect := false, pending := s.connector.pending ++ [.stopInLoop] } :=
    ⟨hcalls', .inr rfl, fun _ => List.mem_append_right _ (List.mem_singleton_self _)⟩
  refine ⟨_, connectorStep_eq hfree rfl rfl, h.connector.stop, h.inRange, fun i d hi => ?_,
    fun hd' => (by cases hd'), fun hre' => ?_,
    fun _ => ⟨hcalls, hstopped, fun hk => (by cases hk)⟩, fun hf => ?_, h.names, h.handed⟩
  · have hd := h.conns i d hi
    exact .of_not_owned hd.settled (hd.not_owned (by rw [hj]; exact fun h => by cases h)) hd.number
  · cases hre.symm.trans hre'
  · cases hfree.symm.trans hf

theorem Inv.detach (h : Inv kind s) {j : Nat} (unique : Bool)
    (hd : s.destroyed = false) (hre : s.restarting = false) (hcalls : s.calls = [])
    (hcalls' : s.connector.calls = []) (hpend : s.connector.pending = [])
    (hj : s.connection = some j) : Checked kind (TcpClient.detach kind s j unique) := by
  have hdet := h.detached hd hre hcalls hcalls' hpend hj
  obtain ⟨-, c, hget, -⟩ := h.holds hd j hj
  cases unique with
  | false => exact hdet
  | true =>
    have hget' : (s.conns.modify j fun c => { c with closeCallback := .detail })[j]? =
        some { c with closeCallback := .detail } := by simp [hget]
    exact hdet.connStep hget' .forceClose rfl (h.conns j c hget).settled.up trivial
      (fun ht => by cases ht)

/-- What was checked goes on with `release`. -/
theorem Checked.release {x : Except Fault TcpClient} (h : Checked kind x) :
    Checked kind (x >>= TcpClient.release) := by
  cases x with
  | error e => exact h
  | ok s => exact .of_ok (Inv.release h)

theorem Inv.destroy (h : Inv kind s) (unique : Bool)
    (he : s.Enabled (.destroy unique)) (hs : s.connection ≠ none → s.connector.pending = []) :
    Checked kind (TcpClient.destroy kind writeComplete s unique) := by
  obtain ⟨hd, hre, hcalls, hcalls'⟩ := he
  unfold TcpClient.destroy
  split
  next j hj =>
    have hpend := hs (by rw [hj]; exact fun h => by cases h)
    exact (h.detach unique hd hre hcalls hcalls' hpend hj).release
  next hj => exact .of_ok (h.stopped hd hre hcalls hcalls' hj)

/-- The timer of the destructor gives up its pointer. -/
theorem Inv.unkept (h : Inv kind s) (hk : s.keeper = true)
    (hpend : s.connector.pending = []) : Inv kind { s with keeper := false } where
  connector := h.connector
  inRange := h.inRange
  conns := fun j c hc => (h.conns j c hc).of_eq rfl rfl rfl
  holds := h.holds
  restart := h.restart
  gone := fun hd => ⟨(h.gone hd).calls, (h.gone hd).stopped, fun _ => hpend⟩
  freed := fun hf => by cases hk.symm.trans (h.freed hf).2.1
  names := h.names
  handed := h.handed

/-- One step of the client. -/
theorem Inv.exec (h : Inv kind s) {op : Op} (he : s.Enabled op)
    (hs : Sound kind s op) : Checked kind (exec kind writeComplete s op) := by
  cases op with
  | enableRetry => exact h.flags true s.connect s.calls fun hd => (h.gone hd).calls
  | callConnect =>
    exact h.flags s.retry true (s.calls ++ [.connect]) fun hd => by cases hd.symm.trans he
  | callStop =>
    exact h.flags s.retry false (s.calls ++ [.stop]) fun hd => by cases hd.symm.trans he
  | connect errno =>
    have h' := h.flags s.retry true s.calls fun hd => (h.gone hd).calls
    refine .of_ok (h'.connectorStep writeComplete trivial hs ?_ fun _ => he.1)
    intro errno' hop
    cases hop
  | stop =>
    have h' := h.flags s.retry false s.calls fun hd => (h.gone hd).calls
    refine .of_ok (h'.connectorStep writeComplete trivial trivial ?_ fun _ => he.1)
    intro errno' hop
    cases hop
  | disconnect =>
    have h' := h.flags s.retry false s.calls fun hd => (h.gone hd).calls
    simp only [TcpClient.exec]
    split
    next => exact h'
    next j hj =>
      obtain ⟨-, c, hget, -⟩ := h.holds he.1 j hj
      exact h'.connStep hget .shutdown rfl (h.conns j c hget).settled.up trivial
        (fun ht => by cases ht)
  | proceed i =>
    have hd : s.destroyed = false := by
      cases hd : s.destroyed with
      | false => rfl
      | true =>
        have hi : i < s.calls.length := he
        rw [(h.gone hd).calls] at hi
        cases hi
    have h' := h.flags s.retry s.connect (s.calls.eraseIdx i) fun hd' => by cases hd.symm.trans hd'
    simp only [TcpClient.exec]
    split
    next => exact h
    next hi =>
      refine .of_ok (h'.connectorStep writeComplete trivial (hs hi) ?_ fun _ => hd)
      intro errno hop
      cases hop
    next =>
      refine .of_ok (h'.connectorStep writeComplete trivial trivial ?_ fun _ => hd)
      intro errno hop
      cases hop
  | restart errno =>
    obtain ⟨hd, hn, hst, hp⟩ := h.restart he
    -- nothing of the connector is being handled when it is connected
    have htodo : s.connector.todo = [] := by
      by_contra hne
      exact (h.connector.handling hne).1 hst
    exact .of_ok (h.restarted.connectorStep writeComplete ⟨hst, htodo⟩ hp (fun _ _ => ⟨hn, rfl⟩)
      fun _ => hd)
  | connector op =>
    obtain ⟨hen, hcl, -⟩ := he
    refine (Checked.of_ok
      (h.connectorStep writeComplete hen hs (fun errno hop => ?_) fun hcl' => ?_)).release
    · subst hop
      cases hcl
    · cases hcl.symm.trans hcl'
  | conn j op =>
    obtain ⟨-, hown, ⟨c, hget, hen⟩, hturn⟩ := he
    exact h.connStep hget op hown hen ((h.conns j c hget).settled.sound (hs c hget)) hturn
  | destroy unique => exact h.destroy unique he hs
  | removeConnector => exact .of_ok (h.unkept he.1 hs).release

theorem Inv.exec_ok (h : Inv kind s) {op : Op} (he : s.Enabled op)
    (hs : Sound kind s op) (hx : TcpClient.exec kind writeComplete s op = .ok s') :
    Inv kind s' := by
  have hchecked : Checked kind (TcpClient.exec kind writeComplete s op) := h.exec he hs
  rw [hx] at hchecked
  exact hchecked

theorem keeps_inv : ((machine kind writeComplete).under (Sound kind)).Keeps (Inv kind) := by
  intro s op s' h he hx
  exact h.exec_ok he.1 he.2 hx

theorem run_inv {ops : List Op}
    (hr : ((machine kind writeComplete).under (Sound kind)).Run init ops s) : Inv kind s :=
  hr.keeps keeps_inv inv_init

instance (s : TcpClient) : (op : Op) → Decidable (s.Enabled op)
  | .enableRetry | .callConnect | .callStop | .restart _ => inferInstanceAs (Decidable (_ = _))
  | .connect _ | .disconnect | .stop | .connector _ | .conn _ _ | .destroy _ | .removeConnector =>
    inferInstanceAs (Decidable (_ ∧ _))
  | .proceed _ => inferInstanceAs (Decidable (_ < _))

instance (s : TcpClient) : (op : Op) → Decidable (Careful kind s op)
  | .conn _ (.functor _) => inferInstanceAs (Decidable (∀ c ∈ _, _ → _ → Watch.Interested kind _))
  | .conn _ .connectEstablished | .conn _ (.send _ _) | .conn _ .shutdown | .conn _ .forceClose
  | .conn _ .forceCloseWithDelay | .conn _ .startRead | .conn _ .stopRead | .conn _ .timer
  | .conn _ (.poll _) | .conn _ (.next _ _) | .conn _ .drop =>
    inferInstanceAs (Decidable (∀ c ∈ _, Watch.Sound kind _ _))
  | .enableRetry | .connect _ | .disconnect | .stop | .callConnect | .callStop | .proceed _
  | .restart _ | .connector _ | .destroy _ | .removeConnector => isTrue trivial

instance (s : TcpClient) : (op : Op) → Decidable (Sound kind s op)
  | .connect errno => inferInstanceAs (Decidable (s.connector.Sound (.start errno)))
  | .connector op => inferInstanceAs (Decidable (s.connector.Sound op))
  | .proceed _ | .destroy _ => inferInstanceAs (Decidable (_ → _))
  | .removeConnector => inferInstanceAs (Decidable (_ = _))
  | .conn j op => inferInstanceAs (Decidable (Careful kind s (.conn j op)))
  | .enableRetry | .disconnect | .stop | .callConnect | .callStop | .restart _ => isTrue trivial

instance (s : TcpClient) (op : Op) : Decidable ((machine kind writeComplete).enabled s op) :=
  inferInstanceAs (Decidable (s.Enabled op))

/-- Destroyed in the connection callback, before `resetChannel`: `~Connector` finds a channel. -/
example : ((machine .epoll false).replay init [.connect Connector.EINPROGRESS,
      .connector (.poll false true), .connector (.next 0 false)]).map
    (fun s => match exec .epoll false s (.destroy true) with
      | .ok _ => none
      | .error e => some e) = some (some .assertReset) := by decide +kernel

end TcpClient
end TinyMuduo

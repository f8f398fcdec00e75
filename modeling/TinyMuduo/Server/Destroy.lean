import TinyMuduo.Server.Lifecycle

/-!
# Server.Destroy

`~TcpServer` while connections are there. It hands every connection in `connections_` to
`connectDestroyed` in the loop of the connection. That is safe for a connection that is up or being
set up, as long as nobody closes it before `connectDestroyed` has run (`destroy_settles`).
`connectDestroyed` empties the interest set of a connection that is `kConnected` only, so one that
is `kDisconnecting` runs into the assertion of `Channel::remove`; and a removal that is under way
comes back to a server that is gone (`destroy_unsettled`).
-/

namespace TinyMuduo
namespace TcpServer

variable {name : ConnId → String} {st : ConnId → Stage} {s s' : TcpServer} {c : ConnId}

instance (it : Iteration) (c : ConnId) : Decidable (it.Releases c) :=
  inferInstanceAs (Decidable (_ → _ → _))

instance (s : TcpServer) : (op : Op) → Decidable (Gentle s op)
  | .destroy order => inferInstanceAs (Decidable (∀ c ∈ order, _ ∧ _))
  | .shutdown _ _ | .callback _ _ => inferInstanceAs (Decidable (_ → _))
  | .poll _ _ | .dispatch _ | .dispatchOther _ | .accept _ _ | .swap _ | .functor _ _
  | .endFunctors _ | .work _ | .send _ _ _ _ => isTrue trivial

/-- Nothing is queued in the loop, and its thread has nothing left to do. -/
def Loop.Idle (r : Loop) : Prop := r.work = [] ∧ r.queue = []

/-- The base loop and the loops of the connections are idle. -/
def Drained (s : TcpServer) : Prop :=
  (s.loops 0).Idle ∧ ∀ c < s.accepted, (s.loops (s.conns c).loop).Idle

instance (r : Loop) : Decidable r.Idle := inferInstanceAs (Decidable (_ ∧ _))

instance (s : TcpServer) : Decidable (Drained s) := inferInstanceAs (Decidable (_ ∧ _))

def Event.isRemoval : Event → Bool
  | .removeConnectionInLoop _ => true
  | _ => false

theorem Stage.script_removals (x : Stage) (own : LoopId) :
    (x.script own).filter Event.isRemoval =
      if x.mapped ∨ x = .unborn then [] else [.removeConnectionInLoop 1] := by
  cases x <;> rfl

theorem Stage.Data.removals {x : Stage} {k : Conn} (h : x.Data k) :
    k.history.filter Event.isRemoval =
      if x.mapped ∨ x = .unborn then [] else [.removeConnectionInLoop 1] := by
  rw [← x.script_removals k.loop, ← h.script, List.filter_filter]
  refine List.filter_congr fun e _ => ?_
  cases e <;> rfl

/-- `removeConnectionInLoop` has run on the connections that are no longer in `connections_`. -/
theorem Inv.removals_eq {st' : ConnId → Stage} (h : Inv name st s) (h' : Inv name st' s')
    (hconn : s'.connections = s.connections) (hacc : s'.accepted = s.accepted) (c : ConnId) :
    (s'.conns c).history.filter Event.isRemoval =
      (s.conns c).history.filter Event.isRemoval := by
  have hmapped : (st' c).mapped = (st c).mapped := by
    have h₁ := (h.own c).mapped
    have h₂ := (h'.own c).mapped
    rw [hconn, h₁] at h₂
    cases hm : (st c).mapped <;> cases hm' : (st' c).mapped <;> simp [hm, hm'] at h₂ ⊢
  have hunborn : st' c = .unborn ↔ st c = .unborn := by
    rw [h.ground.born, h'.ground.born, hacc]
  rw [(h.own c).data.removals, (h'.own c).data.removals, hmapped]
  simp only [hunborn]

/-- A connection that `~TcpServer` has found, when nothing is left to do. -/
theorem Own.settled {x : Stage} (h : Own name s c x) (hdes : s.destroyed = true)
    (hm : s.connections (name c) = some c) (h₀ : (s.loops 0).Idle)
    (hl : (s.loops (s.conns c).loop).Idle) : ∃ b, x = .parted b := by
  have hmapped : x.mapped = true := by
    by_contra hn
    have := h.mapped
    rw [hm, if_neg hn] at this
    cases this
  have hw₀ := h.works 0
  have hw := h.works (s.conns c).loop
  have hf := h.functors (s.conns c).loop
  rw [worksOf, h₀.1] at hw₀
  rw [worksOf, hl.1] at hw
  rw [functorsOf, hl.2] at hf
  cases x with
  | unborn | removed | unregistering | destroyed => cases hmapped
  | closing | down | removing => cases hdes.symm.trans h.fits
  | accepted d => simp [Stage.functors] at hf
  | established d => simp [Stage.works] at hw
  | opened d =>
    cases d with
    | spared => exact absurd rfl (h.fits.2.1 hdes)
    | listed => simp [Stage.works, Doom.works] at hw₀
    | condemned => simp [Stage.functors, Doom.functors] at hf
  | farewell | parting => simp [Stage.works] at hw
  | parted b => exact ⟨b, rfl⟩

/-- **Destroying a server.** `~TcpServer` begins in state `s`, where every connection in
`connections_` is being set up or is up, and from then on no `shutdown()` takes effect and no
connection is closed until `connectDestroyed` has run. Then no step stops at an assertion,
`removeConnectionInLoop` does not run any more, and when the loops have nothing left to do
`connectDestroyed` has run exactly once on every connection that was in `connections_`, up to the
end of `Channel::remove`. -/
theorem destroy_settles (hinj : Function.Injective name) (n : Nat) {ops ops' : List Op}
    {order : List ConnId} (h : ((tcpServer name).under Gentle).Run (init n) ops s)
    (h' : ((tcpServer name).under Gentle).Run s (.destroy order :: ops') s') :
    (∀ op e, Enabled name s' op → Gentle s' op → exec name s' op = .error e →
      e.ofBytes = true) ∧
    (∀ c, (s'.conns c).history.filter Event.isRemoval =
      (s.conns c).history.filter Event.isRemoval) ∧
    (Drained s' → ∀ c, s.connections (name c) = some c →
      ∃ b, (s'.conns c).history.filter (fun e => !e.isHandler) =
        cutShort (s'.conns c).loop b) := by
  have hinv : (tcpServer name |>.under Gentle).Keeps fun s => ∃ st, Inv name st s := by
    rintro s op s' ⟨st, hi⟩ ⟨he, hg⟩ hx
    exact (hi.exec hinj he hg).ok hx
  obtain ⟨st, hi⟩ := h.keeps hinv ⟨_, Inv.init name n⟩
  obtain ⟨st', hi'⟩ := h'.keeps hinv ⟨st, hi⟩
  -- after the first step the server is destroyed, and `connections_` stays as it is
  obtain ⟨hdes, hacc, hconn⟩ : s'.destroyed = true ∧ s'.accepted = s.accepted ∧
      s'.connections = s.connections := by
    cases h' with
    | cons he hx hrun =>
      cases hx
      refine hrun.keeps (I := fun r : TcpServer => r.destroyed = true ∧
        r.accepted = s.accepted ∧ r.connections = s.connections) ?_ ⟨rfl, rfl, rfl⟩
      rintro r op r' ⟨hd, ha, hc⟩ ⟨he, -⟩ hx
      have hk := exec_keeps he hx fun order hop => by
        rw [hop] at he
        cases hd.symm.trans he.1
      exact ⟨hk.destroyed.trans hd, (hk.accepted hd).trans ha, (hk.connections hd).trans hc⟩
  refine ⟨fun op e he hg hx => (hi'.exec hinj he hg).error hx,
    fun c => hi.removals_eq hi' hconn hacc c, fun hdr c hc => ?_⟩
  have ho := hi'.own c
  have hlt : c < s'.accepted := by
    by_contra hge
    have hm := ho.mapped
    rw [(hi'.ground.born c).2 (not_lt.1 hge), hconn, hc] at hm
    cases hm
  obtain ⟨b, hx⟩ := ho.settled hdes (by rw [hconn, hc]) hdr.1 (hdr.2 c hlt)
  rw [hx] at ho
  exact ⟨b, ho.data.script⟩

/-- One connection is up, and the next one is still being set up. -/
def twoConnections : List Op :=
  [.poll 0 [], .accept 7 false, .poll 1 [], .swap 1, .functor 1 (.count 0), .work 1,
    .dispatchOther 0, .accept 8 false]

/-- `~TcpServer` runs to its end; then the io loop goes through a whole iteration, with a message
for the first connection. -/
def tearDown : List Op :=
  [.work 0, .work 0, .endFunctors 1, .poll 1 [(0, POLLIN)], .dispatch 1,
    .callback 1 ⟨.bytes [104, 105], .count 0⟩, .swap 1, .functor 1 (.count 0), .work 1,
    .functor 1 (.count 0), .work 1, .work 1, .functor 1 (.count 0), .work 1, .work 1]

theorem destroy_settles_sample :
    ∃ s s', ((tcpServer numbered).under Gentle).Run (init 1) twoConnections s ∧
      ((tcpServer numbered).under Gentle).Run s (.destroy [0, 1] :: tearDown) s' ∧
      s.connections (numbered 1) = some 1 ∧ Drained s' ∧
      ∃ b, (s'.conns 1).history.filter (fun e => !e.isHandler) =
        cutShort (s'.conns 1).loop b := by
  obtain ⟨s, hs, hv⟩ := Machine.Run.of_replay ((tcpServer numbered).under Gentle) (init 1)
    twoConnections (fun s => (s.connections (numbered 1),
      (((tcpServer numbered).under Gentle).replay s (.destroy [0, 1] :: tearDown)).map
        fun s' => decide (Drained s'))) (some 1, some true) (by decide +kernel)
  obtain ⟨hc, hv⟩ := Prod.mk.inj hv
  obtain ⟨s', hs', hd⟩ := Machine.Run.of_replay _ s _ _ true hv
  have hdr : Drained s' := of_decide_eq_true hd
  exact ⟨s, s', hs, hs', hc, hdr, (destroy_settles numbered_injective 1 hs hs').2.2 hdr 1 hc⟩

/-- The fault a step runs into. -/
def faultOf (name : ConnId → String) (op : Op) (s : TcpServer) : Option Fault :=
  match exec name s op with
  | .ok _ => none
  | .error e => some e

theorem exec_of_faultOf {op : Op} {e : Fault} (h : faultOf name op s = some e) :
    exec name s op = .error e := by
  unfold faultOf at h
  split at h
  · cases h
  next he => rw [he, Option.some.inj h]

/-- A server is destroyed with a connection that is `kDisconnecting`: `connectDestroyed` leaves its
interest set as it is, and the assertion of `Channel::remove` fails. And one is destroyed while
the removal of a closed connection is on its way: `removeConnectionInLoop` is called on a server
that is gone. -/
theorem destroy_unsettled :
    (∃ s, (tcpServer numbered).Run (init 1)
      [.poll 0 [], .accept 7 false, .poll 1 [], .swap 1, .functor 1 (.count 0), .work 1,
        .shutdown 1 0, .endFunctors 1, .destroy [0], .work 0, .poll 1 [], .swap 1,
        .functor 1 (.count 0)] s ∧
      Enabled numbered s (.work 1) ∧ exec numbered s (.work 1) = .error .noneEvent) ∧
    ∃ s, (tcpServer numbered).Run (init 1)
      [.poll 0 [], .accept 7 false, .poll 1 [], .swap 1, .functor 1 (.count 0), .work 1,
        .endFunctors 1, .poll 1 [(0, POLLHUP)], .dispatch 1, .callback 1 ⟨.error 11, .count 0⟩,
        .work 1, .work 1, .destroy [0], .work 0, .swap 0] s ∧
      Enabled numbered s (.functor 0 (.count 0)) ∧
      exec numbered s (.functor 0 (.count 0)) = .error .serverGone := by
  constructor
  · refine (Machine.Run.of_replay (tcpServer numbered) (init 1) _
      (fun s => (decide (Enabled numbered s (.work 1)), faultOf numbered (.work 1) s))
      (true, some .noneEvent) (by decide +kernel)).imp fun s ⟨hrun, hs⟩ => ⟨hrun, ?_⟩
    obtain ⟨he, hf⟩ := Prod.mk.inj hs
    exact ⟨of_decide_eq_true he, exec_of_faultOf hf⟩
  · refine (Machine.Run.of_replay (tcpServer numbered) (init 1) _
      (fun s => (decide (Enabled numbered s (.functor 0 (.count 0))),
        faultOf numbered (.functor 0 (.count 0)) s))
      (true, some .serverGone) (by decide +kernel)).imp fun s ⟨hrun, hs⟩ => ⟨hrun, ?_⟩
    obtain ⟨he, hf⟩ := Prod.mk.inj hs
    exact ⟨of_decide_eq_true he, exec_of_faultOf hf⟩

end TcpServer
end TinyMuduo

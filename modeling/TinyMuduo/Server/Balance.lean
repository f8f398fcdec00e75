import Mathlib.Data.Int.CardIntervalMod
import TinyMuduo.Server.Model

/-!
# Server.Balance

How `EventLoopThreadPool` spreads the connections of a `TcpServer` over its loops. `getNextLoop`
goes round; nothing else in the server moves `next_`, and a connection stays in the loop it was
given.
-/

namespace TinyMuduo
namespace TcpServer

open Result Channel

variable {name : ConnId → String} {s s' s'' : TcpServer} {t l : LoopId} {c : ConnId}

def Op.isAccept : Op → Bool
  | .accept _ _ => true
  | _ => false

theorem isAccept_eq_true {op : Op} (h : op.isAccept = true) : ∃ fd wc, op = .accept fd wc := by
  cases op with
  | accept fd wc => exact ⟨fd, wc, rfl⟩
  | _ => cases h

/-! ## What leaves the pool alone -/

/-- No connection is new, and none changes its loop. -/
structure SamePool (s s' : TcpServer) : Prop where
  numLoops : s'.numLoops = s.numLoops
  next : s'.next = s.next
  accepted : s'.accepted = s.accepted
  loop : ∀ c, (s'.conns c).loop = (s.conns c).loop

namespace SamePool

theorem refl (s : TcpServer) : SamePool s s := ⟨rfl, rfl, rfl, fun _ => rfl⟩

theorem trans (h : SamePool s s') (h' : SamePool s' s'') : SamePool s s'' where
  numLoops := h'.numLoops.trans h.numLoops
  next := h'.next.trans h.next
  accepted := h'.accepted.trans h.accepted
  loop c := (h'.loop c).trans (h.loop c)

theorem setLoop (s : TcpServer) (l : LoopId) (r : Loop) : SamePool s (s.setLoop l r) :=
  ⟨rfl, rfl, rfl, fun _ => rfl⟩

theorem setConn {k : Conn} (h : k.loop = (s.conns c).loop) : SamePool s (s.setConn c k) := by
  refine ⟨rfl, rfl, rfl, fun d => ?_⟩
  show (Function.update s.conns c k d).loop = _
  by_cases hd : d = c
  · subst hd
    rw [Function.update_self, h]
  · rw [Function.update_of_ne hd]

theorem note (s : TcpServer) (c : ConnId) (es : List Event) : SamePool s (s.note c es) :=
  setConn rfl

theorem settle (s : TcpServer) (c : ConnId) (tcp : TcpConnection) (p : EPollPoller)
    (es : List TcpConnection.Effect) : SamePool s (s.settle c tcp p es) := by
  have hconn : SamePool s (s.setConn c { s.conns c with tcp := tcp }) := setConn rfl
  exact hconn.trans (setLoop ..)

theorem call {events : List Event} {r : TcpConnection.Result}
    (h : s.call l c events r = .ok s') : SamePool s s' := by
  obtain ⟨_, _, h⟩ := bind_eq_ok h
  obtain ⟨_, _, h⟩ := bind_eq_ok h
  obtain ⟨_, _, h⟩ := bind_eq_ok h
  cases h
  exact (note ..).trans (settle ..)

theorem removeChannel (h : s.removeChannel l c = .ok s') : SamePool s s' := by
  obtain ⟨_, _, h⟩ := bind_eq_ok h
  obtain ⟨_, _, h⟩ := bind_eq_ok h
  obtain ⟨_, _, h⟩ := bind_eq_ok h
  obtain ⟨_, _, h⟩ := bind_eq_ok h
  cases h
  exact (note ..).trans (settle ..)

theorem runInLoop {f : Functor} {now : TcpServer → Except Fault TcpServer}
    (hnow : now s = .ok s' → SamePool s s') (h : s.runInLoop t l f now = .ok s') :
    SamePool s s' := by
  rw [TcpServer.runInLoop] at h
  split at h
  · exact hnow h
  · cases h
    exact setLoop ..

theorem removeConnectionInLoop (h : removeConnectionInLoop name s l c = .ok s') :
    SamePool s s' := by
  obtain ⟨_, _, h⟩ := bind_eq_ok h
  obtain ⟨_, _, h⟩ := bind_eq_ok h
  obtain ⟨_, _, h⟩ := bind_eq_ok h
  cases h
  have herase : SamePool s { s with connections := Function.update s.connections (name c) none } :=
    ⟨rfl, rfl, rfl, fun _ => rfl⟩
  exact (herase.trans (note ..)).trans (setLoop ..)

theorem removeConnection (h : removeConnection name s l c = .ok s') : SamePool s s' := by
  obtain ⟨_, _, h⟩ := bind_eq_ok h
  exact runInLoop removeConnectionInLoop h

theorem runFunctor {f : Functor} {w : TcpConnection.Write}
    (h : runFunctor name s l w f = .ok s') : SamePool s s' := by
  cases f with
  | connectEstablished | connectDestroyed | sendInLoop | shutdownInLoop => exact call h
  | removeConnectionInLoop => exact removeConnectionInLoop h
  | callback =>
    cases h
    exact refl s

theorem runWork {w : Work} (h : runWork name s l w = .ok s') : SamePool s s' := by
  cases w with
  | connectionCallback =>
    cases h
    exact note ..
  | closeCallback => exact removeConnection h
  | removeChannel => exact removeChannel h
  | destroyConn =>
    rw [TcpServer.runWork] at h
    exact runInLoop call h

theorem handle {a : Answer} {cb : Callback} (h : s.handle l c a cb = .ok s') : SamePool s s' := by
  cases cb with
  | close | error | read | write => exact call h

/-- What `newConnection` does after it has asked the pool. -/
theorem accept {fd : Int} {wc : Bool} (hx : exec name s (.accept fd wc) = .ok s') :
    SamePool (addConnection name (s.leaveChannel 0) fd wc) s' := by
  rw [TcpServer.exec, newConnection] at hx
  exact runInLoop call hx

/-- Only `newConnection` asks the pool. -/
theorem exec {op : Op} (hx : exec name s op = .ok s') (hop : op.isAccept = false) :
    SamePool s s' := by
  cases op with
  | poll | dispatch | dispatchOther | swap | endFunctors =>
    cases hx
    exact setLoop ..
  | accept => cases hop
  | callback l a =>
    rw [TcpServer.exec] at hx
    split at hx
    · exact (setLoop ..).trans (handle hx)
    · cases hx
      exact refl s
  | functor l w =>
    rw [TcpServer.exec] at hx
    split at hx
    · exact (setLoop ..).trans (runFunctor hx)
    · cases hx
      exact refl s
  | work l =>
    rw [TcpServer.exec] at hx
    split at hx
    · exact (setLoop ..).trans (runWork hx)
    · cases hx
      exact refl s
  | send t c data w =>
    rw [TcpServer.exec] at hx
    split at hx
    · exact runInLoop call hx
    · cases hx
      exact refl s
  | shutdown t c =>
    rw [TcpServer.exec] at hx
    split at hx
    · have hconn : SamePool s (s.setConn c { s.conns c with tcp := (s.conns c).tcp.shutdown.2 }) :=
        setConn rfl
      exact hconn.trans (runInLoop call hx)
    · cases hx
      exact refl s
  | destroy order =>
    cases hx
    have hflag : SamePool s { s with destroyed := true } := ⟨rfl, rfl, rfl, fun _ => rfl⟩
    exact hflag.trans (setLoop ..)

end SamePool

/-! ## Round robin -/

/-- The loop of the `c`-th connection, if there are `n` loops. -/
def loopOf (n : Nat) (c : ConnId) : LoopId := if n = 0 then 0 else c % n + 1

/-- How many connections were given to a loop. -/
def load (s : TcpServer) (l : LoopId) : Nat :=
  Nat.count (fun c => (s.conns c).loop = l) s.accepted

structure RoundRobin (n : Nat) (s : TcpServer) : Prop where
  numLoops : s.numLoops = n
  next : s.next = if n = 0 then 0 else s.accepted % n
  loop : ∀ c < s.accepted, (s.conns c).loop = loopOf n c

namespace RoundRobin

variable {n : Nat}

theorem init (n : Nat) : RoundRobin n (init n) where
  numLoops := rfl
  next := by simp [TcpServer.init]
  loop _ hc := absurd hc (Nat.not_lt_zero _)

theorem same (h : RoundRobin n s) (hp : SamePool s s') : RoundRobin n s' where
  numLoops := hp.numLoops.trans h.numLoops
  next := by rw [hp.next, hp.accepted, h.next]
  loop c hc := by
    rw [hp.accepted] at hc
    rw [hp.loop, h.loop c hc]

theorem getNextLoop (h : RoundRobin n s) :
    s.getNextLoop.1 = loopOf n s.accepted ∧
      s.getNextLoop.2 = if n = 0 then 0 else (s.accepted + 1) % n := by
  rw [TcpServer.getNextLoop, loopOf, h.numLoops, h.next]
  by_cases hn : n = 0
  · simp [hn]
  · rw [if_neg hn, if_neg hn, if_neg hn, if_neg hn]
    refine ⟨rfl, ?_⟩
    have hlt := Nat.mod_lt s.accepted (Nat.pos_of_ne_zero hn)
    dsimp only
    rw [← Nat.mod_add_mod s.accepted n 1]
    split
    next hle =>
      have hlast : s.accepted % n + 1 = n := by omega
      rw [hlast, Nat.mod_self]
    next hle => rw [Nat.mod_eq_of_lt (Nat.not_le.1 hle)]

theorem addConnection (h : RoundRobin n s) (fd : Int) (wc : Bool) :
    RoundRobin n (addConnection name s fd wc) where
  numLoops := h.numLoops
  next := h.getNextLoop.2
  loop c hc := by
    show (Function.update s.conns s.accepted
      ⟨s.getNextLoop.1, .new fd wc, []⟩ c).loop = loopOf n c
    by_cases hcc : c = s.accepted
    · subst hcc
      rw [Function.update_self]
      exact h.getNextLoop.1
    · rw [Function.update_of_ne hcc]
      exact h.loop c (Nat.lt_of_le_of_ne (Nat.le_of_lt_succ hc) hcc)

theorem exec (h : RoundRobin n s) {op : Op} (hx : exec name s op = .ok s') : RoundRobin n s' := by
  cases hop : op.isAccept with
  | true =>
    obtain ⟨fd, wc, rfl⟩ := isAccept_eq_true hop
    have h₁ : RoundRobin n (s.leaveChannel 0) := h.same (.setLoop ..)
    exact (h₁.addConnection fd wc).same (.accept hx)
  | false => exact h.same (.exec hx hop)

theorem load_eq (h : RoundRobin n s) {i : Nat} (hi : i < n) :
    s.load (i + 1) = s.accepted / n + if i < s.accepted % n then 1 else 0 := by
  have hn : 0 < n := Nat.zero_lt_of_lt hi
  have hiff : ∀ c < s.accepted, (s.conns c).loop = i + 1 ↔ c ≡ i [MOD n] := by
    intro c hc
    rw [h.loop c hc, loopOf, if_neg (Nat.ne_of_gt hn), Nat.ModEq, Nat.mod_eq_of_lt hi]
    exact Nat.add_right_cancel_iff
  have hcount : s.load (i + 1) = s.accepted.count (· ≡ i [MOD n]) :=
    Nat.le_antisymm (Nat.count_mono_left fun c hc => (hiff c hc).1)
      (Nat.count_mono_left fun c hc => (hiff c hc).2)
  rw [hcount, Nat.count_modEq_card _ hn, Nat.mod_eq_of_lt hi]

end RoundRobin

/-- Every accepted socket becomes a connection. -/
theorem accepted_eq {n : Nat} {ops : List Op} (hr : (tcpServer name).Run (init n) ops s) :
    s.accepted = ops.countP Op.isAccept := by
  have hinit : (init n).accepted = ([] : List Op).countP Op.isAccept := rfl
  refine hr.keeps_trace (I := fun ops (s : TcpServer) => s.accepted = ops.countP Op.isAccept)
    (fun ops s op s' hs _ hx => ?_) hinit
  rw [List.countP_append, List.countP_singleton, ← hs]
  cases hop : op.isAccept with
  | true =>
    obtain ⟨fd, wc, rfl⟩ := isAccept_eq_true hop
    exact (SamePool.accept hx).accepted
  | false => exact (SamePool.exec hx hop).accepted

/-- **Connections are spread evenly.** In every run of a server with `n` io loops, every accepted
socket becomes a connection, whose loop is decided by its number, for its whole life, and of the
connections so far each loop has its share, up to one. Without io loops all are in the base loop. -/
theorem server_balanced {n : Nat} {ops : List Op} (hr : (tcpServer name).Run (init n) ops s) :
    s.accepted = ops.countP Op.isAccept ∧
    (∀ c < s.accepted, (s.conns c).loop = loopOf n c) ∧
    (∀ i < n, s.load (i + 1) = s.accepted / n + if i < s.accepted % n then 1 else 0) ∧
    (n = 0 → s.load 0 = s.accepted) := by
  have h : RoundRobin n s := hr.keeps (fun _ _ _ h _ hx => h.exec hx) (.init n)
  refine ⟨accepted_eq hr, h.loop, fun i hi => h.load_eq hi, fun hn => ?_⟩
  refine Nat.count_iff_forall.2 fun c hc => ?_
  rw [h.loop c hc, loopOf, if_pos hn]

/-- Five connections, two loops: three and two. -/
theorem server_balanced_five :
    ∃ s, (tcpServer fun _ => "").Run (init 2) [.poll 0 [], .accept 7 false, .accept 8 false,
      .accept 9 false, .accept 10 false, .accept 11 false] s ∧ s.load 1 = 3 ∧ s.load 2 = 2 := by
  obtain ⟨s, hr, hs⟩ := Machine.Run.of_replay (tcpServer fun _ => "") (init 2) [.poll 0 [],
    .accept 7 false, .accept 8 false, .accept 9 false, .accept 10 false, .accept 11 false]
    (fun s => s.accepted) 5 (by decide +kernel)
  obtain ⟨-, -, hload, -⟩ := server_balanced hr
  refine ⟨s, hr, ?_, ?_⟩
  · rw [hload 0 (by decide), hs]
    rfl
  · rw [hload 1 (by decide), hs]
    rfl

end TcpServer
end TinyMuduo

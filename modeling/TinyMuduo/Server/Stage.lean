import TinyMuduo.Conn.Correct
import TinyMuduo.Poller.Registry
import TinyMuduo.Server.Model

/-!
# Server.Stage

The life of one connection of a `TcpServer`, as a sequence of stages. A stage says what is under
way for the connection: which functors for it are in the queue of which loop (`Stage.functors`),
what a thread has still to do for it (`Stage.works`), and what has run so far (`Stage.script`).

The usual way is `accepted`, `established`, `opened`, `closing`, `down`, `removing`, `removed`,
`unregistering`, `destroyed`. A connection that is in `connections_` when `~TcpServer` begins is
`listed`, and `condemned` once its `connectDestroyed` is queued; it ends with `farewell`,
`parting`, `parted`.
-/

namespace TinyMuduo
namespace TcpServer

open Channel

/-- What `~TcpServer` has done to a connection. -/
inductive Doom where
  | spared
  /-- The destructor has begun and did not get to the connection yet. -/
  | listed
  | condemned
  deriving DecidableEq, Repr

inductive Stage where
  | unborn
  | accepted (d : Doom)
  | established (d : Doom)
  | opened (d : Doom)
  | closing
  | down
  | removing
  | removed
  | unregistering
  | destroyed
  /-- `connectDestroyed` has found the connection open; `b` says whether its loop was iterating
  over `activeChannels_`. -/
  | farewell (b : Bool)
  | parting (b : Bool)
  | parted (b : Bool)
  deriving DecidableEq, Repr

def Doom.works (c : ConnId) (l : LoopId) : Doom → List Work
  | .listed => if l = 0 then [.destroyConn c] else []
  | .spared | .condemned => []

def Doom.functors (c : ConnId) (own l : LoopId) : Doom → List Functor
  | .condemned => if l = own then [.connectDestroyed c] else []
  | .spared | .listed => []

/-- The events of a connection that is closed and then destroyed, without the handlers in between;
its loop is `own`. -/
def usual (own : LoopId) : List Event :=
  [.connectEstablished, .connectionCallback true, .handleClose, .connectionCallback false,
    .removeConnectionInLoop 1, .connectDestroyed own true false, .channelRemoved]

/-- The events of a connection that `~TcpServer` destroys. -/
def cutShort (own : LoopId) (b : Bool) : List Event :=
  [.connectEstablished, .connectionCallback true, .connectDestroyed own false b,
    .connectionCallback false, .channelRemoved]

def Event.isHandler : Event → Bool
  | .handler _ => true
  | _ => false

theorem Doom.works_own {c : ConnId} {own : LoopId} {d : Doom} (h : d ≠ .spared → own ≠ 0) :
    d.works c own = [] := by
  cases d with
  | spared | condemned => rfl
  | listed => exact if_neg (h nofun)

namespace Stage

/-- What thread `l` has still to do for connection `c`, whose loop is `own`. -/
def works (c : ConnId) (own l : LoopId) : Stage → List Work
  | accepted d | opened d => d.works c l
  | established d => d.works c l ++ if l = own then [.connectionCallback c] else []
  | closing => if l = own then [.connectionCallback c, .closeCallback c] else []
  | down => if l = own then [.closeCallback c] else []
  | farewell _ => if l = own then [.connectionCallback c, .removeChannel c] else []
  | parting _ | unregistering => if l = own then [.removeChannel c] else []
  | unborn | removing | removed | destroyed | parted _ => []

/-- The functors for connection `c` in the queue of loop `l`. -/
def functors (c : ConnId) (own l : LoopId) : Stage → List Functor
  | accepted d => (if l = own then [.connectEstablished c] else []) ++ d.functors c own l
  | established d | opened d => d.functors c own l
  | removing => if l = 0 then [.removeConnectionInLoop c] else []
  | removed => if l = own then [.connectDestroyed c] else []
  | unborn | closing | down | unregistering | destroyed | farewell _ | parting _ | parted _ => []

/-- The events so far, without the handlers in between. -/
def script (own : LoopId) : Stage → List Event
  | unborn | accepted _ => []
  | established _ => (usual own).take 1
  | opened _ => (usual own).take 2
  | closing => (usual own).take 3
  | down | removing => (usual own).take 4
  | removed => (usual own).take 5
  | unregistering => (usual own).take 6
  | destroyed => usual own
  | farewell b => (cutShort own b).take 3
  | parting b => (cutShort own b).take 4
  | parted b => cutShort own b

/-- `connectEstablished` has run. -/
def started : Stage → Bool
  | unborn | accepted _ => false
  | _ => true

/-- The channel is in the poller with a non-empty interest set. -/
def watched : Stage → Bool
  | established _ | opened _ => true
  | _ => false

/-- The socket is open. -/
def live : Stage → Bool
  | unborn | destroyed | parted _ => false
  | _ => true

/-- The connection is in `connections_`, or was when the server was destroyed. -/
def mapped : Stage → Bool
  | unborn | removed | unregistering | destroyed => false
  | _ => true

/-- `connectDestroyed` is under way in this call stack, or `~TcpServer` is about to call it. -/
def leaving (own : LoopId) : Stage → Bool
  | opened .listed => own == 0
  | unregistering | farewell _ | parting _ => true
  | _ => false

/-- The states `state_` can be in. -/
def states : Stage → List StateE
  | unborn | accepted _ => [.kConnecting]
  | opened .spared => [.kConnected, .kDisconnecting]
  | established _ | opened _ => [.kConnected]
  | _ => [.kDisconnected]

/-- The stages of a connection of loop `own` before and after `~TcpServer` has begun. -/
def Fits (own : LoopId) (destroyed : Bool) : Stage → Prop
  | accepted d => own ≠ 0 ∧ (destroyed = true ↔ d ≠ .spared)
  | established d => (d ≠ .spared → own ≠ 0) ∧ (destroyed = true ↔ d ≠ .spared)
  | opened d => (d = .condemned → own ≠ 0) ∧ (destroyed = true ↔ d ≠ .spared)
  | closing | down | removing => destroyed = false
  | farewell _ | parting _ | parted _ => destroyed = true
  | unborn | removed | unregistering | Stage.destroyed => True

/-- What the poller knows of a channel with interest set `e`. -/
def life (e : Events) : Stage → Life
  | unborn | accepted _ => .fresh
  | destroyed | parted _ => .removed
  | _ => .registered e

/-- The fields of a connection that is in stage `x`. -/
structure Data (x : Stage) (k : Conn) : Prop where
  script : k.history.filter (fun e => !e.isHandler) = x.script k.loop
  first : k.history.head? = if x.started then some .connectEstablished else none
  state : k.tcp.state ∈ x.states
  events : if x.watched then
      k.tcp.channel.events = kReadEvent ∨ k.tcp.channel.events = kReadEvent ||| kWriteEvent
    else k.tcp.channel.events = kNoneEvent

/-- The poller and the loops see no difference between stages `x` and `y`. -/
structure Alike (x y : Stage) : Prop where
  born : x = unborn ↔ y = unborn
  live : y.live = x.live
  started : y.started = x.started
  life : ∀ e, y.life e = x.life e

theorem Alike.refl (x : Stage) : Alike x x := ⟨Iff.rfl, rfl, rfl, fun _ => rfl⟩

theorem registered_inv {x : Stage} (h : ∀ e, x.life e = .registered e) :
    x ≠ unborn ∧ x.live = true ∧ x.started = true := by
  cases x with
  | unborn | accepted | destroyed | parted => cases h kNoneEvent
  | established | opened | closing | down | removing | removed | unregistering | farewell
  | parting => exact ⟨nofun, rfl, rfl⟩

theorem Alike.registered {x y : Stage} (hx : ∀ e, x.life e = .registered e)
    (hy : ∀ e, y.life e = .registered e) : Alike x y := by
  obtain ⟨hxu, hxl, hxs⟩ := registered_inv hx
  obtain ⟨hyu, hyl, hys⟩ := registered_inv hy
  exact ⟨by simp [hxu, hyu], hyl.trans hxl.symm, hys.trans hxs.symm, fun e => by rw [hx, hy]⟩

theorem registered_of_watched {x : Stage} (h : x.watched = true) (e : Events) :
    x.life e = .registered e := by
  cases x with
  | established | opened => rfl
  | unborn | accepted | closing | down | removing | removed | unregistering | destroyed | farewell
  | parting | parted => cases h

/-! Which stage a functor or a piece of work belongs to. -/

variable {x : Stage} {c : ConnId} {own l : LoopId} {f : Functor} {fs : List Functor} {w : Work}
  {ws : List Work}

theorem ite_eq_cons {α : Type} {p : Prop} [Decidable p] {a b : α} {bs : List α} {as : List α} :
    (if p then a :: as else []) = b :: bs ↔ p ∧ b = a ∧ bs = as := by
  by_cases hp : p <;> simp [hp, eq_comm]

theorem functors_cons (h : x.functors c own l = f :: fs) :
    (∃ d, x = accepted d ∧ l = own ∧ f = .connectEstablished c) ∨
    (x = removing ∧ l = 0 ∧ f = .removeConnectionInLoop c) ∨
    (x = removed ∨ x = established .condemned ∨ x = opened .condemned) ∧ l = own ∧
      f = .connectDestroyed c := by
  cases x with
  | accepted d =>
    by_cases hl : l = own
    · rw [functors, if_pos hl] at h
      exact Or.inl ⟨d, rfl, hl, (List.cons.inj h).1.symm⟩
    · cases d <;> simp [functors, Doom.functors, hl] at h
  | established d | opened d =>
    cases d with
    | spared | listed => cases h
    | condemned =>
      obtain ⟨hl, hf, -⟩ := ite_eq_cons.1 h
      exact Or.inr (Or.inr ⟨by simp, hl, hf⟩)
  | removing =>
    obtain ⟨hl, hf, -⟩ := ite_eq_cons.1 h
    exact Or.inr (Or.inl ⟨rfl, hl, hf⟩)
  | removed =>
    obtain ⟨hl, hf, -⟩ := ite_eq_cons.1 h
    exact Or.inr (Or.inr ⟨Or.inl rfl, hl, hf⟩)
  | unborn | closing | down | unregistering | destroyed | farewell | parting | parted => cases h

theorem doom_cons {d : Doom} (h : d.works c l = w :: ws) :
    d = .listed ∧ l = 0 ∧ w = .destroyConn c := by
  cases d with
  | spared | condemned => cases h
  | listed =>
    obtain ⟨hl, hw, -⟩ := ite_eq_cons.1 h
    exact ⟨rfl, hl, hw⟩

theorem works_cons (h : x.works c own l = w :: ws) :
    (((∃ d, x = established d) ∨ x = closing ∨ ∃ b, x = farewell b) ∧ l = own ∧
      w = .connectionCallback c) ∨
    (x = down ∧ l = own ∧ w = .closeCallback c) ∨
    ((x = unregistering ∨ ∃ b, x = parting b) ∧ l = own ∧ w = .removeChannel c) ∨
    (x = accepted .listed ∨ x = established .listed ∨ x = opened .listed) ∧ l = 0 ∧
      w = .destroyConn c := by
  cases x with
  | accepted d | opened d =>
    obtain ⟨rfl, hl, hw⟩ := doom_cons h
    exact Or.inr (Or.inr (Or.inr ⟨by simp, hl, hw⟩))
  | established d =>
    rcases List.append_eq_cons_iff.1 h with ⟨-, hcb⟩ | ⟨ws', hd, -⟩
    · obtain ⟨hl, hw, -⟩ := ite_eq_cons.1 hcb
      exact Or.inl ⟨Or.inl ⟨d, rfl⟩, hl, hw⟩
    · obtain ⟨rfl, hl, hw⟩ := doom_cons hd
      exact Or.inr (Or.inr (Or.inr ⟨by simp, hl, hw⟩))
  | closing | farewell =>
    obtain ⟨hl, hw, -⟩ := ite_eq_cons.1 h
    exact Or.inl ⟨by simp, hl, hw⟩
  | down =>
    obtain ⟨hl, hw, -⟩ := ite_eq_cons.1 h
    exact Or.inr (Or.inl ⟨rfl, hl, hw⟩)
  | parting | unregistering =>
    obtain ⟨hl, hw, -⟩ := ite_eq_cons.1 h
    exact Or.inr (Or.inr (Or.inl ⟨by simp, hl, hw⟩))
  | unborn | removing | removed | destroyed | parted => cases h

end Stage

/-! ## Whose functor, whose work -/

/-- The connection whose life a functor moves on. -/
def Functor.subject : Functor → Option ConnId
  | .connectEstablished c | .removeConnectionInLoop c | .connectDestroyed c => some c
  | .sendInLoop _ _ | .shutdownInLoop _ | .callback _ _ => none

/-- The connection of a functor that a user call has queued. -/
def Functor.client : Functor → Option ConnId
  | .sendInLoop c _ | .shutdownInLoop c => some c
  | .connectEstablished _ | .removeConnectionInLoop _ | .connectDestroyed _ | .callback _ _ => none

/-- The functors of a loop that did not run yet, in the order they will. -/
def Loop.queue (r : Loop) : List Functor := r.functors ++ r.pendingFunctors

def worksOf (s : TcpServer) (l : LoopId) (c : ConnId) : List Work :=
  (s.loops l).work.filter fun w => w.conn = c

def functorsOf (s : TcpServer) (l : LoopId) (c : ConnId) : List Functor :=
  (s.loops l).queue.filter fun f => f.subject = some c

end TcpServer
end TinyMuduo

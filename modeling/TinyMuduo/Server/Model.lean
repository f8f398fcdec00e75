import TinyMuduo.Conn.Model
import TinyMuduo.Lib.Machine
import TinyMuduo.Poller.Model

/-!
# Server.Model

`muduo::net::TcpServer` with its connections, the base loop and any number of io loops.

Every loop has its own thread, and the threads interleave. A step is one critical section of a
functor queue together with the code around it, or one part of a handler that no user code can
interrupt: a user callback may call `send` and `shutdown`, so what a handler does after it has
called one is a step of its own (`Work`). `shutdown()` tests and sets `state_` in one step. Other
threads may call `send` and `shutdown` too, once the first connection callback has handed out the
connection.

`history` records what has run on a connection. The lifetime of the objects, the acceptor and the
end of the io threads are left out; a connection stays in the table after its last step.
-/

namespace TinyMuduo

/-- A connection, by the address of its channel. -/
abbrev ConnId := ChannelId

/-- The base loop is `0`; the io loops come after it. -/
abbrev LoopId := Nat

namespace TcpServer

inductive Functor where
  | connectEstablished (c : ConnId)
  | removeConnectionInLoop (c : ConnId)
  | connectDestroyed (c : ConnId)
  | sendInLoop (c : ConnId) (data : List Byte)
  | shutdownInLoop (c : ConnId)
  /-- A user callback. -/
  | callback (c : ConnId) (f : TcpConnection.Queued)
  deriving DecidableEq, Repr

/-- What the functions a loop thread is in have still to do. -/
inductive Work where
  | connectionCallback (c : ConnId)
  | closeCallback (c : ConnId)
  /-- `channel_->remove()`, the last line of `connectDestroyed`. -/
  | removeChannel (c : ConnId)
  /-- One turn of the loop in `~TcpServer`. -/
  | destroyConn (c : ConnId)
  deriving DecidableEq, Repr

def Work.conn : Work → ConnId
  | .connectionCallback c | .closeCallback c | .removeChannel c | .destroyConn c => c

inductive Handler where
  | handleRead
  | handleWrite
  | handleError
  | sendInLoop
  | shutdownInLoop
  deriving DecidableEq, Repr

/-- What has run on a connection. -/
inductive Event where
  | connectEstablished
  /-- `up` is what `connected()` says to the callback. -/
  | connectionCallback (up : Bool)
  | handleClose
  /-- `n` is the number of entries erased. -/
  | removeConnectionInLoop (n : Nat)
  /-- With the loop it ran in, whether the interest set was empty and whether the loop was
  iterating over `activeChannels_`. -/
  | connectDestroyed (l : LoopId) (noneEvent eventHandling : Bool)
  /-- `Channel::remove` has returned. -/
  | channelRemoved
  | handler (h : Handler)
  deriving DecidableEq, Repr

structure Conn where
  loop : LoopId
  tcp : TcpConnection
  history : List Event

namespace Conn

def fd (k : Conn) : Int := k.tcp.channel.fd

/-- A connection callback has handed the connection to the user. -/
def known (k : Conn) : Bool :=
  k.history.any fun | .connectionCallback _ => true | _ => false

/-- `connectDestroyed` has returned; before that the socket is not closed. -/
def gone (k : Conn) : Bool :=
  k.tcp.state == .kDisconnected && k.tcp.channel.index == EPollPoller.kNew

end Conn

inductive Phase where
  | polling
  | handling
  | functors
  deriving DecidableEq, Repr

/-- Where a loop thread is in its iteration. -/
structure Iteration where
  phase : Phase
  activeChannels : List ConnId
  /-- The active channels that were not dispatched yet, with their `revents_`. -/
  waiting : List (ConnId × Events)
  /-- `none` also stands for a channel that is not one of a connection. -/
  currentActiveChannel : Option ConnId
  /-- What `handleEvent` of the current channel has still to call. -/
  callbacks : List Channel.Callback
  /-- The close callback is among what this `handleEvent` calls. -/
  closes : Bool

structure Loop where
  it : Iteration
  /-- What `doPendingFunctors` has swapped out and not called yet. -/
  functors : List Functor
  pendingFunctors : List Functor
  work : List Work
  poller : EPollPoller

def Iteration.init : Iteration := ⟨.polling, [], [], none, [], false⟩

def Loop.init : Loop := ⟨.init, [], [], [], .init⟩

inductive Fault where
  | conn (e : TcpConnection.Stop)
  | poller (e : PollerFault)
  /-- `abortNotInLoopThread`. -/
  | notInLoopThread
  /-- `assert(n == 1)` in `removeConnectionInLoop`. -/
  | eraseCount
  /-- `assert(isNoneEvent())` in `Channel::remove`. -/
  | noneEvent
  /-- The assertion on `activeChannels_` in `EventLoop::removeChannel`. -/
  | activeChannel
  /-- A function of the server is called after its destructor has begun. -/
  | serverGone
  deriving DecidableEq, Repr

end TcpServer

structure TcpServer where
  /-- The number of io loops. -/
  numLoops : Nat
  next : Nat
  /-- The number of connections accepted so far. -/
  accepted : Nat
  conns : ConnId → TcpServer.Conn
  connections : String → Option ConnId
  loops : LoopId → TcpServer.Loop
  /-- `~TcpServer` has begun. -/
  destroyed : Bool

namespace TcpServer

open Result

def init (n : Nat) : TcpServer where
  numLoops := n
  next := 0
  accepted := 0
  conns := fun _ => ⟨0, .new 0 false, []⟩
  connections := fun _ => none
  loops := fun _ => .init
  destroyed := false

def setLoop (s : TcpServer) (l : LoopId) (r : Loop) : TcpServer :=
  { s with loops := Function.update s.loops l r }

def setConn (s : TcpServer) (c : ConnId) (k : Conn) : TcpServer :=
  { s with conns := Function.update s.conns c k }

def note (s : TcpServer) (c : ConnId) (es : List Event) : TcpServer :=
  s.setConn c { s.conns c with history := (s.conns c).history ++ es }

def iterate (s : TcpServer) (l : LoopId) (it : Iteration) : TcpServer :=
  s.setLoop l { s.loops l with it := it }

def popWork (s : TcpServer) (l : LoopId) : TcpServer :=
  s.setLoop l { s.loops l with work := (s.loops l).work.tail }

def popFunctor (s : TcpServer) (l : LoopId) : TcpServer :=
  s.setLoop l { s.loops l with functors := (s.loops l).functors.tail }

def queueInLoop (s : TcpServer) (l : LoopId) (f : Functor) : TcpServer :=
  s.setLoop l { s.loops l with pendingFunctors := (s.loops l).pendingFunctors ++ [f] }

/-- `runInLoop` called by thread `t`: `now` is the call of the functor. -/
def runInLoop (s : TcpServer) (t l : LoopId) (f : Functor)
    (now : TcpServer → Except Fault TcpServer) : Except Fault TcpServer :=
  if t = l then now s else .ok (s.queueInLoop l f)

/-! ## Functions of a connection -/

/-- What an effect leaves for the thread to do. -/
def Work.ofEffect (c : ConnId) : TcpConnection.Effect → Option Work
  | .connectionCallback => some (.connectionCallback c)
  | .closeCallback => some (.closeCallback c)
  | .removeChannel => some (.removeChannel c)
  | .write _ | .queueInLoop _ | .updateChannel | .shutdownWrite | .messageCallback => none

def Functor.ofEffect (c : ConnId) : TcpConnection.Effect → Option Functor
  | .queueInLoop f => some (.callback c f)
  | .write _ | .updateChannel | .removeChannel | .shutdownWrite | .connectionCallback
  | .messageCallback | .closeCallback => none

/-- The state after a function of `c` that leaves the poller as `p`. -/
def settle (s : TcpServer) (c : ConnId) (tcp : TcpConnection) (p : EPollPoller)
    (es : List TcpConnection.Effect) : TcpServer :=
  let k := s.conns c
  let r := s.loops k.loop
  (s.setConn c { k with tcp := tcp }).setLoop k.loop { r with
    poller := p
    pendingFunctors := r.pendingFunctors ++ es.filterMap (Functor.ofEffect c)
    work := es.filterMap (Work.ofEffect c) ++ r.work }

/-- The poller and the mark of the channel after a function of `c`. No function calls
`updateChannel` twice, or changes the interest set after it. -/
def pollerAfter (s : TcpServer) (c : ConnId) (r : TcpConnection × List TcpConnection.Effect) :
    Except PollerFault (EPollPoller × Int) :=
  let p := (s.loops (s.conns c).loop).poller
  if .updateChannel ∈ r.2 then p.updateChannel c r.1.channel else .ok (p, r.1.channel.index)

/-- Thread `l` runs a function of `c` with the outcome `r`. -/
def call (s : TcpServer) (l : LoopId) (c : ConnId) (events : List Event)
    (r : TcpConnection.Result) : Except Fault TcpServer := do
  ensure (l = (s.conns c).loop) .notInLoopThread
  let r ← r.mapError .conn
  let p ← (s.pollerAfter c r).mapError .poller
  .ok ((s.note c events).settle c { r.1 with channel := { r.1.channel with index := p.2 } } p.1 r.2)

def connectEstablished (s : TcpServer) (l : LoopId) (c : ConnId) : Except Fault TcpServer :=
  s.call l c [.connectEstablished] (s.conns c).tcp.connectEstablished

def connectDestroyed (s : TcpServer) (l : LoopId) (c : ConnId) : Except Fault TcpServer :=
  let k := s.conns c
  s.call l c [.connectDestroyed l k.tcp.channel.isNoneEvent ((s.loops l).it.phase = .handling)]
    (.ok k.tcp.connectDestroyed)

def sendInLoop (s : TcpServer) (l : LoopId) (c : ConnId) (data : List Byte)
    (w : TcpConnection.Write) : Except Fault TcpServer :=
  s.call l c [.handler .sendInLoop] ((s.conns c).tcp.sendInLoop data w)

def shutdownInLoop (s : TcpServer) (l : LoopId) (c : ConnId) : Except Fault TcpServer :=
  let tcp := (s.conns c).tcp
  s.call l c [.handler .shutdownInLoop] (.ok (tcp, tcp.shutdownInLoop))

/-- `Channel::remove` and `EventLoop::removeChannel`. -/
def removeChannel (s : TcpServer) (l : LoopId) (c : ConnId) : Except Fault TcpServer := do
  let k := s.conns c
  let it := (s.loops l).it
  ensure (k.tcp.channel.isNoneEvent = true) .noneEvent
  ensure (l = k.loop) .notInLoopThread
  ensure (it.phase = .handling → it.currentActiveChannel = some c ∨ c ∉ it.activeChannels)
    .activeChannel
  let p ← ((s.loops k.loop).poller.removeChannel c k.tcp.channel).mapError .poller
  .ok ((s.note c [.channelRemoved]).settle c
    { k.tcp with channel := { k.tcp.channel with index := p.2 } } p.1 [])

/-! ## Functions of the server -/

/-- `EventLoopThreadPool::getNextLoop`: the loop, and the new `next_`. -/
def getNextLoop (s : TcpServer) : LoopId × Nat :=
  if s.numLoops = 0 then (0, s.next)
  else (s.next + 1, if s.numLoops ≤ s.next + 1 then 0 else s.next + 1)

section Names

variable (name : ConnId → String)

/-- The part of `newConnection` before `runInLoop`. -/
def addConnection (s : TcpServer) (fd : Int) (writeComplete : Bool) : TcpServer :=
  { s with
    next := s.getNextLoop.2
    accepted := s.accepted + 1
    conns := Function.update s.conns s.accepted ⟨s.getNextLoop.1, .new fd writeComplete, []⟩
    connections := Function.update s.connections (name s.accepted) (some s.accepted) }

def newConnection (s : TcpServer) (fd : Int) (writeComplete : Bool) : Except Fault TcpServer :=
  let c := s.accepted
  (addConnection name s fd writeComplete).runInLoop 0 s.getNextLoop.1 (.connectEstablished c)
    fun s => s.connectEstablished 0 c

/-- `connections_.erase(name)`: the number of entries erased. -/
def eraseCount (s : TcpServer) (c : ConnId) : Nat :=
  if (s.connections (name c)).isSome then 1 else 0

/-- What `removeConnectionInLoop` leaves when its assertion holds. -/
def erased (s : TcpServer) (c : ConnId) : TcpServer :=
  ({ s with connections := Function.update s.connections (name c) none }.note c
    [.removeConnectionInLoop (eraseCount name s c)]).queueInLoop (s.conns c).loop
      (.connectDestroyed c)

def removeConnectionInLoop (s : TcpServer) (l : LoopId) (c : ConnId) :
    Except Fault TcpServer := do
  ensure (s.destroyed = false) .serverGone
  ensure (l = 0) .notInLoopThread
  ensure (eraseCount name s c = 1) .eraseCount
  .ok (erased name s c)

def removeConnection (s : TcpServer) (l : LoopId) (c : ConnId) : Except Fault TcpServer := do
  ensure (s.destroyed = false) .serverGone
  s.runInLoop l 0 (.removeConnectionInLoop c) fun s => removeConnectionInLoop name s l c

/-! ## Steps -/

/-- What the kernel answers in a callback. -/
structure Answer where
  read : Buffer.Readv
  write : TcpConnection.Write

inductive Op where
  | poll (l : LoopId) (active : List (ConnId × Events))
  /-- `handleEvent` of the next active channel begins. -/
  | dispatch (l : LoopId)
  /-- `handleEvent` of a channel that is not one of a connection. -/
  | dispatchOther (l : LoopId)
  /-- `Acceptor::handleRead` in the base loop. -/
  | accept (fd : Int) (writeComplete : Bool)
  | callback (l : LoopId) (a : Answer)
  /-- The last `handleEvent` has returned: `doPendingFunctors` swaps. -/
  | swap (l : LoopId)
  | functor (l : LoopId) (w : TcpConnection.Write)
  | endFunctors (l : LoopId)
  | work (l : LoopId)
  /-- User code in thread `t`. -/
  | send (t : LoopId) (c : ConnId) (data : List Byte) (w : TcpConnection.Write)
  | shutdown (t : LoopId) (c : ConnId)
  /-- `~TcpServer` begins; it goes through the connections in this order. -/
  | destroy (order : List ConnId)

def dispatched (s : TcpServer) (it : Iteration) : Iteration :=
  match it.waiting with
  | [] => it
  | (c, revents) :: rest =>
    let callbacks := { (s.conns c).tcp.channel with revents := revents }.callbacks
    { it with
      waiting := rest
      currentActiveChannel := some c
      callbacks := callbacks
      closes := .close ∈ callbacks }

/-- The iteration goes on to a channel that is not one of a connection. -/
def leaveChannel (s : TcpServer) (l : LoopId) : TcpServer :=
  s.iterate l { (s.loops l).it with currentActiveChannel := none }

/-- The handlers a `TcpConnection` gives to its channel. -/
def handle (s : TcpServer) (l : LoopId) (c : ConnId) (a : Answer) :
    Channel.Callback → Except Fault TcpServer
  | .close => s.call l c [.handleClose] (s.conns c).tcp.handleClose
  | .error => s.call l c [.handler .handleError] (.ok ((s.conns c).tcp, []))
  | .read => s.call l c
      (.handler .handleRead :: if a.read = .bytes [] then [.handleClose] else [])
      ((s.conns c).tcp.handleRead a.read)
  | .write => s.call l c [.handler .handleWrite] ((s.conns c).tcp.handleWrite a.write)

def runFunctor (s : TcpServer) (l : LoopId) (w : TcpConnection.Write) :
    Functor → Except Fault TcpServer
  | .connectEstablished c => s.connectEstablished l c
  | .removeConnectionInLoop c => removeConnectionInLoop name s l c
  | .connectDestroyed c => s.connectDestroyed l c
  | .sendInLoop c data => s.sendInLoop l c data w
  | .shutdownInLoop c => s.shutdownInLoop l c
  | .callback _ _ => .ok s

def runWork (s : TcpServer) (l : LoopId) : Work → Except Fault TcpServer
  | .connectionCallback c =>
    .ok (s.note c [.connectionCallback ((s.conns c).tcp.state = .kConnected)])
  | .closeCallback c => removeConnection name s l c
  | .removeChannel c => s.removeChannel l c
  | .destroyConn c => s.runInLoop l (s.conns c).loop (.connectDestroyed c) fun s =>
      s.connectDestroyed l c

def exec (s : TcpServer) : Op → Except Fault TcpServer
  | .poll l active =>
    .ok (s.iterate l
      { phase := .handling
        activeChannels := active.map Prod.fst
        waiting := active
        currentActiveChannel := none
        callbacks := []
        closes := false })
  | .dispatch l => .ok (s.iterate l (s.dispatched (s.loops l).it))
  | .dispatchOther l => .ok (s.leaveChannel l)
  | .accept fd writeComplete => newConnection name (s.leaveChannel 0) fd writeComplete
  | .callback l a =>
    let it := (s.loops l).it
    match it.currentActiveChannel, it.callbacks with
    | some c, cb :: rest => (s.iterate l { it with callbacks := rest }).handle l c a cb
    | _, _ => .ok s
  | .swap l =>
    let r := s.loops l
    .ok (s.setLoop l { r with
      it := { r.it with phase := .functors, currentActiveChannel := none }
      functors := r.pendingFunctors
      pendingFunctors := [] })
  | .functor l w =>
    match (s.loops l).functors with
    | f :: _ => runFunctor name (s.popFunctor l) l w f
    | [] => .ok s
  | .endFunctors l => .ok (s.iterate l { (s.loops l).it with phase := .polling })
  | .work l =>
    match (s.loops l).work with
    | w :: _ => runWork name (s.popWork l) l w
    | [] => .ok s
  | .send t c data w =>
    if (s.conns c).tcp.state = .kConnected then
      s.runInLoop t (s.conns c).loop (.sendInLoop c data) fun s => s.sendInLoop t c data w
    else .ok s
  | .shutdown t c =>
    let k := s.conns c
    if k.tcp.shutdown.1 then
      (s.setConn c { k with tcp := k.tcp.shutdown.2 }).runInLoop t k.loop (.shutdownInLoop c)
        fun s => s.shutdownInLoop t c
    else .ok s
  | .destroy order =>
    let r := s.loops 0
    .ok ({ s with destroyed := true }.setLoop 0 { r with
      work := order.map Work.destroyConn ++ r.work })

/-- `epoll_wait` reports a channel that is in the interest list, and each one once. A dispatch
leads to at most one of the close callback and a read that returns 0. A descriptor is reused only
after it was closed. -/
def Enabled (s : TcpServer) : Op → Prop
  | .poll l active =>
    (s.loops l).it.phase = .polling ∧ (s.loops l).work = [] ∧ (active.map Prod.fst).Nodup ∧
      ∀ c ∈ active.map Prod.fst, ((s.loops l).poller.kernel (s.conns c).fd).map Prod.snd = some c
  | .dispatch l =>
    (s.loops l).it.phase = .handling ∧ (s.loops l).work = [] ∧ (s.loops l).it.callbacks = [] ∧
      (s.loops l).it.waiting ≠ []
  | .dispatchOther l =>
    (s.loops l).it.phase = .handling ∧ (s.loops l).work = [] ∧ (s.loops l).it.callbacks = []
  | .accept fd _ =>
    s.destroyed = false ∧ (s.loops 0).it.phase = .handling ∧ (s.loops 0).work = [] ∧
      (s.loops 0).it.callbacks = [] ∧
      ∀ c < s.accepted, (s.conns c).gone = true ∨ (s.conns c).fd ≠ fd
  | .callback l a =>
    (s.loops l).it.phase = .handling ∧ (s.loops l).work = [] ∧ (s.loops l).it.callbacks ≠ [] ∧
      (a.read = .bytes [] → (s.loops l).it.closes = false)
  | .swap l =>
    (s.loops l).it.phase = .handling ∧ (s.loops l).work = [] ∧ (s.loops l).it.callbacks = [] ∧
      (s.loops l).it.waiting = []
  | .functor l _ =>
    (s.loops l).it.phase = .functors ∧ (s.loops l).work = [] ∧ (s.loops l).functors ≠ []
  | .endFunctors l =>
    (s.loops l).it.phase = .functors ∧ (s.loops l).work = [] ∧ (s.loops l).functors = []
  | .work l => (s.loops l).work ≠ []
  | .send _ c _ _ | .shutdown _ c => (s.conns c).known = true
  -- user code runs in the base loop: no callback is about to be made there
  | .destroy order =>
    s.destroyed = false ∧ (∀ w ∈ (s.loops 0).work, w ≠ .connectionCallback w.conn) ∧
      order.Nodup ∧ (∀ c ∈ order, c < s.accepted) ∧
      ∀ c < s.accepted, c ∈ order ↔ s.connections (name c) = some c

instance (s : TcpServer) : (op : Op) → Decidable (Enabled name s op)
  | .poll _ _ | .dispatch _ | .dispatchOther _ | .accept _ _ | .callback _ _ | .swap _
  | .functor _ _ | .endFunctors _ | .destroy _ => inferInstanceAs (Decidable (_ ∧ _))
  | .work _ => inferInstanceAs (Decidable (_ ≠ _))
  | .send _ _ _ _ | .shutdown _ _ => inferInstanceAs (Decidable (_ = _))

end Names

end TcpServer

/-- A server whose `c`-th connection is called `name c`. -/
def tcpServer (name : ConnId → String) : Machine TcpServer TcpServer.Op TcpServer.Fault where
  enabled := TcpServer.Enabled name
  exec := TcpServer.exec name

instance (name : ConnId → String) (s : TcpServer) (op : TcpServer.Op) :
    Decidable ((tcpServer name).enabled s op) :=
  inferInstanceAs (Decidable (TcpServer.Enabled name s op))

end TinyMuduo

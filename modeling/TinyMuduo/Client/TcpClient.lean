import TinyMuduo.Client.Attempts
import TinyMuduo.Conn.Closed
import TinyMuduo.Lib.Signed

/-!
# Client.TcpClient

`TcpClient` of the annotated library: a `Connector`, the connections that were made with the sockets
it handed over, and the threads that call `connect` and `stop`.

The client lives in one loop. A step is a step of the connector, of a connection, or a call of one
of the client's functions. In another thread `connect` and `stop` write `connect_` first and call
the connector later, in steps of their own. `removeConnection` reads `retry_ && connect_` in one
step and calls `restart` in the next, so that the flag may be written in between; the loop thread
does nothing else meanwhile. The destructor runs in the loop thread, after the other threads have
returned.

The connector lives as long as somebody has a `ConnectorPtr`: the client, until its destructor has
returned; the timer that the destructor sets when there is no connection; and each retry timer. Its
functors and its channel have only a pointer.

The functors of the live connection, and what `poll` reports of it, come after the functors that
were queued when it was made, so the channel of the connector has been reset by then.
-/

namespace TinyMuduo

namespace Connector

/-- The descriptor that this step passes to `newConnectionCallback_`. -/
def hands (s : Connector) : Op → Option Nat
  | .next soError selfConnect =>
    if s.todo.head? = some .write ∧ s.state = .kConnecting ∧ soError = 0 ∧ selfConnect = false ∧
        s.connect = true then
      s.channel.map (·.fd)
    else none
  | _ => none

/-- The steps that are calls of `TcpClient`. -/
def Op.isCall : Op → Bool
  | .start _ | .stop | .callStart | .callStop | .restart _ => true
  | _ => false

/-- The steps of other threads. -/
def Op.isForeign : Op → Bool
  | .push _ => true
  | _ => false

end Connector

namespace TcpClient

/-- What `closeCallback_` of a connection is bound to. -/
inductive CloseCallback where
  | removeConnection
  /-- `detail::removeConnection` -/
  | detail
  deriving DecidableEq, Repr

structure Conn where
  watch : Watch
  closeCallback : CloseCallback
  /-- The number in its name, an `int`. -/
  connId : Int

/-- A call in another thread that has written `connect_`. -/
inductive ThreadCall where
  | connect
  | stop
  deriving DecidableEq, Repr

inductive Fault where
  | connector (f : Connector.Fault)
  | conn (f : Watch.Fault)
  /-- `connection_ == conn` in `removeConnection` -/
  | assertConnection
  /-- A function of the client is called after its destructor. -/
  | destroyed
  /-- `!channel_` in `~Connector` -/
  | assertReset
  /-- A function of the connector is called after its destructor. -/
  | freed
  deriving DecidableEq, Repr

end TcpClient

open TcpClient in
structure TcpClient where
  connector : Connector
  /-- All connections, in the order in which they were made. -/
  conns : List Conn
  connection : Option Nat
  retry : Bool
  connect : Bool
  /-- An `int`. -/
  nextConnId : Int
  calls : List ThreadCall
  /-- `removeConnection` is about to call `restart`. -/
  restarting : Bool
  destroyed : Bool
  /-- The timer of the destructor, with its `ConnectorPtr`, is set. -/
  keeper : Bool
  /-- The connector is destroyed. -/
  freed : Bool

namespace TcpClient

open Result

inductive Op where
  | enableRetry
  | connect (errno : Errno)
  | disconnect
  | stop
  /-- The first step of `connect()` and `stop()` in another thread. -/
  | callConnect
  | callStop
  /-- The next step of the `i`-th of these calls. -/
  | proceed (i : Nat)
  | restart (errno : Errno)
  | connector (op : Connector.Op)
  | conn (j : Nat) (op : WatchOp)
  /-- The destructor; `unique` says that nobody else has the connection. -/
  | destroy (unique : Bool)
  /-- The timer of the destructor expires. -/
  | removeConnector

def init : TcpClient where
  connector := .init
  conns := []
  connection := none
  retry := false
  connect := true
  nextConnId := 1
  calls := []
  restarting := false
  destroyed := false
  keeper := false
  freed := false

variable (kind : PollerKind) (writeComplete : Bool)

/-- `newConnection`, with `connectEstablished` at its end. -/
def newConnection (s : TcpClient) (sockfd : Nat) : Except Fault TcpClient := do
  ensure (s.destroyed = false) .destroyed
  let w ← ((Watch.init (.new sockfd writeComplete)).exec kind .connectEstablished).mapError .conn
  .ok { s with
    conns := s.conns ++ [⟨w, .removeConnection, s.nextConnId⟩]
    connection := some s.conns.length
    nextConnId := wrap32 (s.nextConnId + 1) }

/-- `removeConnection`, up to the call of `restart`. The connection itself pushes its
`connectDestroyed`. -/
def removeConnection (s : TcpClient) (j : Nat) : Except Fault TcpClient := do
  ensure (s.destroyed = false) .destroyed
  ensure (s.connection = some j) .assertConnection
  .ok { s with connection := none, restarting := s.retry && s.connect }

def connectorStep (s : TcpClient) (op : Connector.Op) : Except Fault TcpClient := do
  ensure (s.freed = false) .freed
  let c ← (s.connector.exec op).mapError .connector
  match s.connector.hands op with
  | some sockfd => newConnection kind writeComplete { s with connector := c } sockfd
  | none => .ok { s with connector := c }

/-- The step of the connection is the call of `closeCallback_`. -/
def callsClose (w : Watch) : WatchOp → Bool
  | .next _ _ => w.todo.head? = some .closeCallback
  | _ => false

def connStep (s : TcpClient) (j : Nat) (op : WatchOp) : Except Fault TcpClient :=
  match s.conns[j]? with
  | none => .ok s
  | some c => do
    let w ← (c.watch.exec kind op).mapError .conn
    let s := { s with conns := s.conns.set j { c with watch := w } }
    if callsClose c.watch op && c.closeCallback = .removeConnection then s.removeConnection j
    else .ok s

/-- `~Connector`, if nobody has a `ConnectorPtr` any more. -/
def release (s : TcpClient) : Except Fault TcpClient :=
  if s.destroyed = true ∧ s.keeper = false ∧ s.connector.timers = 0 then do
    ensure (s.connector.channel = none) .assertReset
    .ok { s with freed := true }
  else .ok s

/-- What the destructor does with the connection it finds. -/
def detach (s : TcpClient) (j : Nat) (unique : Bool) : Except Fault TcpClient :=
  let s := { s with
    destroyed := true
    conns := s.conns.modify j fun c => { c with closeCallback := .detail } }
  if unique then s.connStep kind j .forceClose else .ok s

/-- The destructor; at its end the members are destroyed. -/
def destroy (s : TcpClient) (unique : Bool) : Except Fault TcpClient :=
  match s.connection with
  | some j => do
    let s ← detach kind s j unique
    s.release
  | none => connectorStep kind writeComplete { s with destroyed := true, keeper := true } .stop

def exec (s : TcpClient) : Op → Except Fault TcpClient
  | .enableRetry => .ok { s with retry := true }
  | .connect errno => connectorStep kind writeComplete { s with connect := true } (.start errno)
  | .disconnect =>
    match s.connection with
    | none => .ok { s with connect := false }
    | some j => connStep kind { s with connect := false } j .shutdown
  | .stop => connectorStep kind writeComplete { s with connect := false } .stop
  | .callConnect => .ok { s with connect := true, calls := s.calls ++ [.connect] }
  | .callStop => .ok { s with connect := false, calls := s.calls ++ [.stop] }
  | .proceed i =>
    match s.calls[i]? with
    | none => .ok s
    | some .connect =>
      connectorStep kind writeComplete { s with calls := s.calls.eraseIdx i } .callStart
    | some .stop =>
      connectorStep kind writeComplete { s with calls := s.calls.eraseIdx i } .callStop
  | .restart errno =>
    connectorStep kind writeComplete { s with restarting := false } (.restart errno)
  | .connector op => do
    -- a retry timer that has expired gives up its pointer
    let s ← connectorStep kind writeComplete s op
    s.release
  | .conn j op => s.connStep kind j op
  | .destroy unique => destroy kind writeComplete s unique
  | .removeConnector => { s with keeper := false }.release

/-- The steps of a connection that are not made by the client itself. -/
def isOwn : WatchOp → Bool
  | .connectEstablished | .drop => false
  | _ => true

/-- The steps that begin something in the loop. -/
def isTurn : WatchOp → Bool
  | .poll _ | .functor _ => true
  | _ => false

def Enabled (s : TcpClient) : Op → Prop
  | .enableRetry | .callConnect | .callStop => s.destroyed = false
  | .connect _ | .disconnect | .stop => s.destroyed = false ∧ s.restarting = false
  | .proceed i => i < s.calls.length
  | .restart _ => s.restarting = true
  | .connector op =>
    s.connector.Enabled op ∧ op.isCall = false ∧ (op.isForeign = false → s.restarting = false)
  | .conn j op =>
    s.restarting = false ∧ isOwn op = true ∧ (∃ c ∈ s.conns[j]?, c.watch.Enabled op) ∧
      (isTurn op = true → s.connection = some j → .resetChannel ∉ s.connector.pending)
  | .destroy _ =>
    s.destroyed = false ∧ s.restarting = false ∧ s.calls = [] ∧ s.connector.calls = []
  | .removeConnector => s.keeper = true ∧ s.connector.todo = []

/-- The users of a connection and `poll` keep to what `Watch.Sound` asks of them. -/
def Careful (s : TcpClient) : Op → Prop
  | .conn j op => ∀ c ∈ s.conns[j]?,
    match op with
    | .functor i => c.watch.pending[i]? = some .forceCloseInLoop → c.watch.isOpen = true →
        c.watch.Interested kind
    | op => c.watch.Sound kind op
  | _ => True

/-- `connect` is called when the connector is disconnected and nothing else will start it. A client
that has a connection is destroyed when no functor of the connector is in the queue, `resetChannel`
in particular; the functors of one without a connection are run before its timer expires, a second
later. -/
def Sound (s : TcpClient) : Op → Prop
  | .connect errno => s.connector.Sound (.start errno)
  | .proceed i => s.calls[i]? = some .connect → s.connector.Sound .callStart
  | .connector op => s.connector.Sound op
  | .destroy _ => s.connection ≠ none → s.connector.pending = []
  | .removeConnector => s.connector.pending = []
  | op => Careful kind s op

def machine : Machine TcpClient Op Fault where
  enabled := Enabled
  exec := exec kind writeComplete

end TcpClient

end TinyMuduo

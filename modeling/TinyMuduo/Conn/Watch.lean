import TinyMuduo.Lib.Machine
import TinyMuduo.Lib.Result
import TinyMuduo.Conn.Model

/-!
# Conn.Watch

How long a connection of the annotated library is watched. Besides `send` and `shutdown` it has
`forceClose`, `forceCloseWithDelay`, `startRead` and `stopRead`; all are called in the loop thread
here, at any time after the connection is up, also inside of its callbacks.

The loop thread has a list of things left to do in the library (`todo`): the callbacks of the
channel for one `poll`, the call of `closeCallback_` after the user's callback in `handleClose`, the
`Channel::remove` at the end of `connectDestroyed`. Functors and `poll` come when it is empty.

What the poller knows of the channel is its `Registration`. An `EPollPoller` that is told of an
empty interest set takes the descriptor out of the kernel's set, and puts it back the next time it
is told anything, even if the set is still empty; the kernel then reports hang-ups.
-/

namespace TinyMuduo

namespace Channel

def isReading (ch : Channel) : Bool := ch.events &&& kReadEvent != 0#32

def disableReading (ch : Channel) : Channel := { ch with events := ch.events &&& ~~~kReadEvent }

end Channel

inductive PollerKind where
  | poll
  | epoll
  deriving DecidableEq, Repr

/-- What the poller knows of a channel. -/
inductive Registration where
  | out
  /-- The kernel is asked about the descriptor. -/
  | active
  /-- The channel is in `channels_`, but the kernel is not asked: `-fd - 1`, or `kDeleted`. -/
  | muted
  deriving DecidableEq, Repr

/-- `updateChannel`; `none` says that the interest set is empty. -/
def Registration.update (kind : PollerKind) (none : Bool) : Registration → Registration
  | .out => .active
  | .active => if none then .muted else .active
  | .muted =>
    match kind with
    -- the descriptor in the slot stays negative
    | .poll => .muted
    | .epoll => .active

open TcpConnection

inductive Todo where
  | callback (c : Channel.Callback)
  | closeCallback
  | remove
  deriving DecidableEq, Repr

/-- What an effect of a function leaves to do when the user's callback has returned. -/
def Todo.ofEffect : Effect → Option Todo
  | .closeCallback => some .closeCallback
  | .removeChannel => some .remove
  | _ => none

/-- The callbacks that may enter `handleClose`. -/
def Todo.ends : Todo → Bool
  | .callback .close | .callback .read => true
  | _ => false

inductive Pending where
  | forceCloseInLoop
  | connectDestroyed
  deriving DecidableEq, Repr

structure Watch where
  conn : TcpConnection
  /-- `reading_`. -/
  reading : Bool
  registered : Registration
  todo : List Todo
  pending : List Pending
  /-- The timers of `forceCloseWithDelay`. -/
  delayed : Nat
  /-- How often `handleClose` was run. -/
  closes : Nat
  /-- The owner has not given the connection to `connectDestroyed` yet. -/
  owned : Bool

inductive WatchOp where
  | connectEstablished
  | send (data : List Byte) (w : Write)
  | shutdown
  | forceClose
  | forceCloseWithDelay
  | startRead
  | stopRead
  /-- A timer of `forceCloseWithDelay` expires. -/
  | timer
  | poll (revents : Events)
  /-- The first thing on the list is done; `r` and `w` are the answers of the kernel. -/
  | next (r : Buffer.Readv) (w : Write)
  | functor (i : Nat)
  /-- The owner is destroyed. -/
  | drop

namespace Watch

open Result

inductive Fault where
  | stop (s : Stop)
  /-- `isNoneEvent()` in `Channel::remove` -/
  | assertNoneEvent
  deriving DecidableEq, Repr

def lift {α : Type} (x : Except Stop α) : Except Fault α := x.mapError .stop

def init (c : TcpConnection) : Watch where
  conn := c
  reading := true
  registered := .out
  todo := []
  pending := []
  delayed := 0
  closes := 0
  owned := true

/-- A function has returned with `r`; `rest` is left to do. -/
def after (kind : PollerKind) (s : Watch) (rest : List Todo) (r : TcpConnection × List Effect) :
    Watch :=
  { s with
    conn := r.1
    registered :=
      if .updateChannel ∈ r.2 then s.registered.update kind r.1.channel.isNoneEvent
      else s.registered
    todo := r.2.filterMap Todo.ofEffect ++ rest
    closes := s.closes + r.2.count .closeCallback }

def ECONNRESET : Errno := 104

/-- The direct write of `sendInLoop`, which also gives up on `ECONNRESET`. -/
def firstWrite (c : TcpConnection) (data : List Byte) (w : Write) : Sent :=
  match w with
  | .count _ => c.firstWrite data w
  | .error e =>
    { c.firstWrite data w with
      error := c.writesDirectly ∧ e ≠ EWOULDBLOCK ∧ (e = EPIPE ∨ e = ECONNRESET) }

def sendInLoop (c : TcpConnection) (data : List Byte) (w : Write) : TcpConnection.Result :=
  if c.state = .kDisconnected then .ok (c, [])
  else c.finishSend data (firstWrite c data w)

/-- `state_ == kConnected || state_ == kDisconnecting` -/
def isOpen (s : Watch) : Bool :=
  decide (s.conn.state = .kConnected ∨ s.conn.state = .kDisconnecting)

def setState (s : Watch) (state : StateE) : Watch :=
  { s with conn := { s.conn with state := state } }

def forceClose (s : Watch) : Watch :=
  if s.isOpen then
    { s.setState .kDisconnecting with pending := s.pending ++ [.forceCloseInLoop] }
  else s

def forceCloseWithDelay (s : Watch) : Watch :=
  if s.isOpen then { s.setState .kDisconnecting with delayed := s.delayed + 1 } else s

def startReadInLoop (kind : PollerKind) (s : Watch) : Watch :=
  if !s.reading || !s.conn.channel.isReading then
    { s.after kind s.todo
        ({ s.conn with channel := s.conn.channel.enableReading }, [.updateChannel]) with
      reading := true }
  else s

def stopReadInLoop (kind : PollerKind) (s : Watch) : Watch :=
  if s.reading || s.conn.channel.isReading then
    { s.after kind s.todo
        ({ s.conn with channel := s.conn.channel.disableReading }, [.updateChannel]) with
      reading := false }
  else s

/-- The first thing on the list. -/
def doNext (kind : PollerKind) (s : Watch) (r : Buffer.Readv) (w : Write) : Except Fault Watch :=
  match s.todo with
  | [] => .ok s
  | .callback .close :: rest => do
    let x ← lift s.conn.handleClose
    .ok (s.after kind rest x)
  -- `handleError` only logs
  | .callback .error :: rest => .ok { s with todo := rest }
  | .callback .read :: rest => do
    let x ← lift (s.conn.handleRead r)
    .ok (s.after kind rest x)
  | .callback .write :: rest => do
    let x ← lift (s.conn.handleWrite w)
    .ok (s.after kind rest x)
  | .closeCallback :: rest =>
    .ok { s with
      todo := rest
      pending := s.pending ++ if s.owned then [.connectDestroyed] else []
      owned := false }
  | .remove :: rest => do
    ensure (s.conn.channel.isNoneEvent = true) .assertNoneEvent
    .ok { s with todo := rest, registered := .out }

def runFunctor (kind : PollerKind) (s : Watch) (i : Nat) : Except Fault Watch :=
  let s' := { s with pending := s.pending.eraseIdx i }
  match s.pending[i]? with
  | none => .ok s
  | some .forceCloseInLoop =>
    if s.isOpen then do
      let x ← lift s.conn.handleClose
      .ok (s'.after kind s.todo x)
    else .ok s'
  | some .connectDestroyed => .ok (s'.after kind s.todo s.conn.connectDestroyed)

def exec (kind : PollerKind) (s : Watch) : WatchOp → Except Fault Watch
  | .connectEstablished => do
    let x ← lift s.conn.connectEstablished
    .ok (s.after kind s.todo x)
  | .send data w =>
    if s.conn.state = .kConnected then do
      let x ← lift (sendInLoop s.conn data w)
      .ok (s.after kind s.todo x)
    else .ok s
  | .shutdown =>
    if s.conn.shutdown.1 then
      .ok (s.after kind s.todo (s.conn.shutdown.2, s.conn.shutdown.2.shutdownInLoop))
    else .ok s
  | .forceClose => .ok s.forceClose
  | .forceCloseWithDelay => .ok s.forceCloseWithDelay
  | .startRead => .ok (s.startReadInLoop kind)
  | .stopRead => .ok (s.stopReadInLoop kind)
  | .timer => .ok { s with delayed := s.delayed - 1 }.forceClose
  | .poll revents =>
    let channel := { s.conn.channel with revents := revents }
    .ok { s with
      conn := { s.conn with channel := channel }
      todo := channel.callbacks.map .callback }
  | .next r w => s.doNext kind r w
  | .functor i => s.runFunctor kind i
  | .drop => .ok { s with pending := s.pending ++ [.connectDestroyed], owned := false }

/-- Users have the connection once it is up; `poll` reports what the kernel is asked about. -/
def Enabled (s : Watch) : WatchOp → Prop
  | .connectEstablished => s.conn.state = .kConnecting
  | .send .. | .shutdown | .forceClose | .forceCloseWithDelay | .startRead | .stopRead =>
    s.conn.state ≠ .kConnecting
  | .timer => 0 < s.delayed
  | .poll _ => s.todo = [] ∧ s.registered = .active
  | .next .. => s.todo ≠ []
  | .functor i => s.todo = [] ∧ i < s.pending.length
  | .drop => s.conn.state ≠ .kConnecting ∧ s.owned = true

instance (s : Watch) : (op : WatchOp) → Decidable (s.Enabled op)
  | .connectEstablished => inferInstanceAs (Decidable (_ = _))
  | .send .. | .shutdown | .forceClose | .forceCloseWithDelay | .startRead | .stopRead =>
    inferInstanceAs (Decidable (_ ≠ _))
  | .timer => inferInstanceAs (Decidable (_ < _))
  | .poll _ | .functor _ | .drop => inferInstanceAs (Decidable (_ ∧ _))
  | .next .. => inferInstanceAs (Decidable (_ ≠ _))

def machine (kind : PollerKind) : Machine Watch WatchOp Fault where
  enabled := Enabled
  exec := exec kind

instance (kind : PollerKind) (s : Watch) (op : WatchOp) : Decidable ((machine kind).enabled s op) :=
  inferInstanceAs (Decidable (s.Enabled op))

end Watch
end TinyMuduo

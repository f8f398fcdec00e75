import TinyMuduo.Buffer.Model
import TinyMuduo.Lib.Machine
import TinyMuduo.Lib.Result

/-!
# Client.Connector

`Connector` with its event loop and the threads that call `start` and `stop`.

In the loop thread `start` runs `startInLoop` at once and `stop` pushes `stopInLoop`. In another
thread each of them writes `connect_` and then pushes a functor, in two steps. Functors run first
in, first out, when no event of the channel is being handled. The callbacks of one dispatch are
the error callback and then the write callback; the others are not set. A retry timer may expire at
any time after it was set.

Descriptors are numbered in the order in which `connect()` creates them. For each it is counted how
often the connector has closed it and how often it went to `newConnectionCallback_`.
-/

namespace TinyMuduo

namespace Connector

inductive States where
  | kDisconnected
  | kConnecting
  | kConnected
  deriving DecidableEq, Repr

def kMaxRetryDelayMs : Nat := 30 * 1000
def kInitRetryDelayMs : Nat := 500

def EINTR : Errno := 4
def EAGAIN : Errno := 11
def EADDRINUSE : Errno := 98
def EADDRNOTAVAIL : Errno := 99
def ENETUNREACH : Errno := 101
def EISCONN : Errno := 106
def ECONNREFUSED : Errno := 111
def EINPROGRESS : Errno := 115

/-- `channel_`: its descriptor, and whether the poller has it (`addedToLoop_`). -/
structure Link where
  fd : Nat
  added : Bool
  deriving DecidableEq, Repr

structure Socket where
  /-- How often `sockets::close` was called. -/
  closed : Nat
  /-- How often it was passed to `newConnectionCallback_`. -/
  passed : Nat
  deriving DecidableEq, Repr

inductive Functor where
  | startInLoop
  | stopInLoop
  | resetChannel
  deriving DecidableEq, Repr

inductive Callback where
  | error
  | write
  deriving DecidableEq, Repr

inductive Fault where
  /-- `state_ == kDisconnected` in `startInLoop` -/
  | assertStart
  /-- `!channel_` in `connecting` -/
  | assertChannel
  /-- `state_ == kDisconnected` in `handleWrite` -/
  | assertWrite
  /-- `!addedToLoop_` in the destructor of the channel -/
  | assertRemoved
  /-- `channel_` is used and null. -/
  | nullChannel
  deriving DecidableEq, Repr

end Connector

open Connector in
structure Connector where
  connect : Bool
  state : States
  channel : Option Link
  retryDelayMs : Nat
  sockets : List Socket
  /-- The callbacks left in the dispatch of the channel. -/
  todo : List Callback
  /-- `pendingFunctors_`. -/
  pending : List Functor
  /-- The retry timers. -/
  timers : Nat
  /-- The functors that calls in other threads are about to push. -/
  calls : List Functor

namespace Connector

open Result

inductive Op where
  /-- `start()` in the loop thread; `errno` is the result of `connect(2)`. -/
  | start (errno : Errno)
  | stop
  /-- The first step of `start()` and `stop()` in another thread. -/
  | callStart
  | callStop
  /-- The second step of the `i`-th of these calls. -/
  | push (i : Nat)
  /-- `restart()`. -/
  | restart (errno : Errno)
  | functor (errno : Errno)
  /-- A retry timer expires. -/
  | timer (errno : Errno)
  | poll (error write : Bool)
  /-- The next callback of the dispatch, with `SO_ERROR` and whether the socket is connected to
  itself. -/
  | next (soError : Errno) (selfConnect : Bool)

def init : Connector where
  connect := false
  state := .kDisconnected
  channel := none
  retryDelayMs := kInitRetryDelayMs
  sockets := []
  todo := []
  pending := []
  timers := 0
  calls := []

/-- `sockets::close(sockfd)`. -/
def close (s : Connector) (fd : Nat) : Connector :=
  { s with sockets := s.sockets.modify fd fun k => { k with closed := k.closed + 1 } }

/-- `newConnectionCallback_(sockfd)`. -/
def pass (s : Connector) (fd : Nat) : Connector :=
  { s with sockets := s.sockets.modify fd fun k => { k with passed := k.passed + 1 } }

/-- `runAfter(retryDelayMs_ / 1000.0, startInLoop)`, unless the connector was stopped. -/
def retryLater (s : Connector) : Connector :=
  if s.connect then
    { s with timers := s.timers + 1, retryDelayMs := min (s.retryDelayMs * 2) kMaxRetryDelayMs }
  else s

def retry (s : Connector) (fd : Nat) : Connector :=
  { s.close fd with state := .kDisconnected }.retryLater

def connecting (s : Connector) (fd : Nat) : Except Fault Connector := do
  ensure (s.channel = none) .assertChannel
  .ok { s with state := .kConnecting, channel := some ⟨fd, true⟩ }

/-- `sockets::createNonblockingOrDie`. -/
def create (s : Connector) : Connector := { s with sockets := s.sockets ++ [⟨0, 0⟩] }

/-- `connect()`; every errno that is not named leads to `close`. -/
def connectNow (s : Connector) (savedErrno : Errno) : Except Fault Connector :=
  let fd := s.sockets.length
  let s := s.create
  if savedErrno = 0 ∨ savedErrno = EINPROGRESS ∨ savedErrno = EINTR ∨ savedErrno = EISCONN then
    s.connecting fd
  else if savedErrno = EAGAIN ∨ savedErrno = EADDRINUSE ∨ savedErrno = EADDRNOTAVAIL ∨
      savedErrno = ECONNREFUSED ∨ savedErrno = ENETUNREACH then
    .ok (s.retry fd)
  else
    .ok (s.close fd)

def startInLoop (s : Connector) (errno : Errno) : Except Fault Connector := do
  ensure (s.state = .kDisconnected) .assertStart
  if s.connect then s.connectNow errno else .ok s

/-- `removeAndResetChannel()`, with the descriptor it returns. -/
def removeAndResetChannel (s : Connector) : Except Fault (Connector × Nat) :=
  match s.channel with
  | none => .error .nullChannel
  | some c =>
    .ok ({ s with channel := some ⟨c.fd, false⟩, pending := s.pending ++ [.resetChannel] }, c.fd)

def stopInLoop (s : Connector) : Except Fault Connector :=
  if s.state = .kConnecting then do
    let (s, fd) ← { s with state := .kDisconnected }.removeAndResetChannel
    .ok (s.retry fd)
  else .ok s

def resetChannel (s : Connector) : Except Fault Connector := do
  ensure (∀ c ∈ s.channel, c.added = false) .assertRemoved
  .ok { s with channel := none }

def handleWrite (s : Connector) (soError : Errno) (selfConnect : Bool) : Except Fault Connector :=
  if s.state = .kConnecting then do
    let (s, fd) ← s.removeAndResetChannel
    if soError ≠ 0 then
      .ok (s.retry fd)
    else if selfConnect then
      .ok (s.retry fd)
    else
      let s := { s with state := .kConnected }
      .ok (if s.connect then s.pass fd else s.close fd)
  else do
    ensure (s.state = .kDisconnected) .assertWrite
    .ok s

def handleError (s : Connector) : Except Fault Connector :=
  if s.state = .kConnecting then do
    let (s, fd) ← s.removeAndResetChannel
    .ok (s.retry fd)
  else .ok s

def runFunctor (s : Connector) (errno : Errno) : Functor → Except Fault Connector
  | .startInLoop => s.startInLoop errno
  | .stopInLoop => s.stopInLoop
  | .resetChannel => s.resetChannel

def exec (s : Connector) : Op → Except Fault Connector
  | .start errno => { s with connect := true }.startInLoop errno
  | .stop => .ok { s with connect := false, pending := s.pending ++ [.stopInLoop] }
  | .callStart => .ok { s with connect := true, calls := s.calls ++ [.startInLoop] }
  | .callStop => .ok { s with connect := false, calls := s.calls ++ [.stopInLoop] }
  | .push i =>
    .ok { s with calls := s.calls.eraseIdx i, pending := s.pending ++ s.calls[i]?.toList }
  | .restart errno =>
    { s with
      state := .kDisconnected
      retryDelayMs := kInitRetryDelayMs
      connect := true }.startInLoop errno
  | .functor errno =>
    match s.pending with
    | [] => .ok s
    | f :: fs => { s with pending := fs }.runFunctor errno f
  | .timer errno => { s with timers := s.timers - 1 }.startInLoop errno
  | .poll error write =>
    .ok { s with todo := (if error then [.error] else []) ++ if write then [.write] else [] }
  | .next soError selfConnect =>
    match s.todo with
    | [] => .ok s
    | .error :: cs => { s with todo := cs }.handleError
    | .write :: cs => { s with todo := cs }.handleWrite soError selfConnect

/-- `start` and `stop` are called at any time. `restart` is called when the connection is closed, as
`TcpClient::removeConnection` does. -/
def Enabled (s : Connector) : Op → Prop
  | .start _ | .stop | .callStart | .callStop => True
  | .push i => i < s.calls.length
  | .restart _ => s.state = .kConnected ∧ s.todo = []
  | .functor _ => s.todo = [] ∧ s.pending ≠ []
  | .timer _ => 0 < s.timers
  | .poll _ _ => s.todo = [] ∧ ∃ c ∈ s.channel, c.added = true
  | .next _ _ => s.todo ≠ []

instance (s : Connector) : (op : Op) → Decidable (s.Enabled op)
  | .start _ | .stop | .callStart | .callStop => isTrue trivial
  | .push _ | .timer _ => inferInstanceAs (Decidable (_ < _))
  | .restart _ | .functor _ | .poll _ _ => inferInstanceAs (Decidable (_ ∧ _))
  | .next _ _ => inferInstanceAs (Decidable (_ ≠ _))

def machine : Machine Connector Op Fault where
  enabled := Enabled
  exec := exec

instance (s : Connector) (op : Op) : Decidable (machine.enabled s op) :=
  inferInstanceAs (Decidable (s.Enabled op))

end Connector
end TinyMuduo

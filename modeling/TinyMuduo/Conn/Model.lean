import TinyMuduo.Buffer.Model
import TinyMuduo.Poller.Channel

/-!
# Conn.Model

`muduo::net::TcpConnection`, one function of the loop thread at a time.

A function reads and writes the fields of the connection and has effects outside of it: bytes the
kernel accepts, functors queued in the loop, calls into the poller, user callbacks. It returns the
new fields and the list of its effects in the order they happen. What the kernel answers to a
`write(2)` or `readv(2)` is an argument. Logging is left out, and leaves `errno` alone.
-/

namespace TinyMuduo

/-- `TcpConnection::StateE`. -/
inductive StateE where
  | kDisconnected
  | kConnecting
  | kConnected
  | kDisconnecting
  deriving DecidableEq, Repr

structure TcpConnection where
  state : StateE
  channel : Channel
  inputBuffer : Buffer
  outputBuffer : Buffer
  /-- `writeCompleteCallback_` is set. -/
  writeCompleteCallback : Bool
  /-- `highWaterMarkCallback_` is set. -/
  highWaterMarkCallback : Bool
  highWaterMark : Nat
  deriving DecidableEq

namespace TcpConnection

def EWOULDBLOCK : Errno := 11
def EPIPE : Errno := 32

/-- What `write(2)` reports. -/
inductive Write where
  | count (n : Nat)
  | error (errno : Errno)
  deriving DecidableEq, Repr

/-- The callbacks that are queued in the loop. -/
inductive Queued where
  | writeComplete
  | highWaterMark (len : Nat)
  deriving DecidableEq, Repr

inductive Effect where
  | write (accepted : List Byte)
  | queueInLoop (f : Queued)
  | updateChannel
  | removeChannel
  | shutdownWrite
  | connectionCallback
  | messageCallback
  | closeCallback
  deriving DecidableEq, Repr

inductive Assertion where
  | sendRemaining
  | establishedState
  | closeState
  deriving DecidableEq, Repr

/-- Why a function does not return: an exception leaves the loop, or a fault. -/
inductive Stop where
  | lengthError
  | buffer (f : Buffer.Fault)
  | assertion (a : Assertion)
  deriving DecidableEq, Repr

/-- The result of a buffer operation; an exception is not caught. -/
def returned {α : Type} : Buffer.Outcome α → Except Stop α
  | .next a => .ok a
  | .threw _ => .error .lengthError
  | .fault f => .error (.buffer f)

abbrev Result := Except Stop (TcpConnection × List Effect)

/-- `TcpConnection::TcpConnection`. -/
def new (fd : Int) (writeComplete : Bool) : TcpConnection where
  state := .kConnecting
  channel := .new fd
  inputBuffer := Buffer.fresh
  outputBuffer := Buffer.fresh
  writeCompleteCallback := writeComplete
  highWaterMarkCallback := false
  highWaterMark := 64 * 1024 * 1024

/-! ## Sending -/

/-- What is known after the first part of `sendInLoop`. -/
structure Sent where
  nwrote : Nat
  remaining : Nat
  error : Bool
  effects : List Effect

/-- The direct write of `sendInLoop`. -/
def directWrite (c : TcpConnection) (data : List Byte) : Write → Sent
  | .count n =>
    { nwrote := n
      remaining := sizeSub data.length n
      error := false
      effects := .write (data.take n) ::
        if sizeSub data.length n = 0 ∧ c.writeCompleteCallback then
          [.queueInLoop .writeComplete]
        else [] }
  | .error e =>
    { nwrote := 0
      remaining := data.length
      error := e ≠ EWOULDBLOCK ∧ e = EPIPE
      effects := [] }

/-- Nothing is waiting in the output queue: `sendInLoop` tries to write directly. -/
def writesDirectly (c : TcpConnection) : Bool :=
  !c.channel.isWriting && c.outputBuffer.readableBytes == 0

def firstWrite (c : TcpConnection) (data : List Byte) (w : Write) : Sent :=
  if c.writesDirectly then c.directWrite data w else ⟨0, data.length, false, []⟩

/-- The high water mark callback is queued when this message crosses the mark. -/
def crossHighWaterMark (c : TcpConnection) (oldLen remaining : Nat) : List Effect :=
  if c.highWaterMark ≤ sizeAdd oldLen remaining ∧ oldLen < c.highWaterMark ∧
      c.highWaterMarkCallback then
    [.queueInLoop (.highWaterMark (sizeAdd oldLen remaining))]
  else []

/-- The second part of `sendInLoop`: what was not written goes to the output buffer. -/
def bufferRest (c : TcpConnection) (data : List Byte) (s : Sent) : Result := do
  let es := s.effects ++ c.crossHighWaterMark c.outputBuffer.readableBytes s.remaining
  let b ← returned (c.outputBuffer.append ((data.drop s.nwrote).take s.remaining))
  if c.channel.isWriting then
    .ok ({ c with outputBuffer := b }, es)
  else
    .ok ({ c with outputBuffer := b, channel := c.channel.enableWriting }, es ++ [.updateChannel])

/-- `sendInLoop` after the direct write. -/
def finishSend (c : TcpConnection) (data : List Byte) (s : Sent) : Result :=
  if s.remaining ≤ data.length then
    if s.error = false ∧ 0 < s.remaining then c.bufferRest data s else .ok (c, s.effects)
  else .error (.assertion .sendRemaining)

def sendInLoop (c : TcpConnection) (data : List Byte) (w : Write) : Result :=
  if c.state = .kDisconnected then .ok (c, [])
  else c.finishSend data (c.firstWrite data w)

/-- The effects of `shutdownInLoop`. -/
def shutdownInLoop (c : TcpConnection) : List Effect :=
  if c.channel.isWriting then [] else [.shutdownWrite]

/-- `handleWrite` after `outputBuffer_.retrieve(n)`. -/
def afterWrite (c : TcpConnection) : TcpConnection × List Effect :=
  if c.outputBuffer.readableBytes = 0 then
    let c' := { c with channel := c.channel.disableWriting }
    (c', [.updateChannel] ++
      (if c.writeCompleteCallback then [.queueInLoop .writeComplete] else []) ++
      if c.state = .kDisconnecting then c'.shutdownInLoop else [])
  else (c, [])

/-- `handleWrite` when `write` has accepted the first `n` readable bytes. -/
def wrote (c : TcpConnection) (n : Nat) : Result := do
  let b ← returned (c.outputBuffer.retrieve n)
  let r := afterWrite { c with outputBuffer := b }
  .ok (r.1, .write (c.outputBuffer.readable.take n) :: r.2)

def handleWrite (c : TcpConnection) (w : Write) : Result :=
  if c.channel.isWriting then
    match w with
    | .count n => if 0 < n then c.wrote n else .ok (c, [])
    | .error _ => .ok (c, [])
  else .ok (c, [])

/-! ## Closing -/

/-- The test and set of `shutdown()`: whether `shutdownInLoop` is to run, and the new fields. -/
def shutdown (c : TcpConnection) : Bool × TcpConnection :=
  if c.state = .kConnected then (true, { c with state := .kDisconnecting }) else (false, c)

def handleClose (c : TcpConnection) : Result :=
  if c.state = .kConnected ∨ c.state = .kDisconnecting then
    .ok ({ c with state := .kDisconnected, channel := c.channel.disableAll },
      [.updateChannel, .connectionCallback, .closeCallback])
  else .error (.assertion .closeState)

/-- `handleRead`; `handleError` only logs. -/
def handleRead (c : TcpConnection) (r : Buffer.Readv) : Result := do
  let b ← returned (c.inputBuffer.readFd r)
  match r with
  | .error _ => .ok ({ c with inputBuffer := b }, [])
  | .bytes [] => handleClose { c with inputBuffer := b }
  | .bytes (_ :: _) => .ok ({ c with inputBuffer := b }, [.messageCallback])

def connectEstablished (c : TcpConnection) : Result :=
  if c.state = .kConnecting then
    .ok ({ c with state := .kConnected, channel := c.channel.enableReading },
      [.updateChannel, .connectionCallback])
  else .error (.assertion .establishedState)

/-- `connectDestroyed`; `Channel::remove` comes last and is the poller's part. -/
def connectDestroyed (c : TcpConnection) : TcpConnection × List Effect :=
  if c.state = .kConnected then
    ({ c with state := .kDisconnected, channel := c.channel.disableAll },
      [.updateChannel, .connectionCallback, .removeChannel])
  else (c, [.removeChannel])

end TcpConnection
end TinyMuduo

import TinyMuduo.Buffer.Model
import TinyMuduo.Lib.Machine
import TinyMuduo.Lib.Result
import TinyMuduo.Lib.Table

/-!
# Server.Acceptor

`Acceptor` in a process whose descriptor table has a limit.

`handleRead` accepts one connection. When the table is full it gives up `idleFd_` for a moment, in
order to accept the connection and close it; its system calls are steps of their own there, because
other threads open and close descriptors in between. A descriptor belongs to whoever opened it, and
`close` of one that belongs to somebody else is a fault here: in the program it would go unnoticed.

Peers are numbered in the order in which they arrive. `taken` records whose connection was accepted,
and the descriptor if it went to `newConnectionCallback_`. The kernel answers `EMFILE` only when the
table is full; any other error may come at any time.

Three things are simpler than in the program: `listenOrDie` does not fail; the `accept` and the
`close` of a connection for which there is no callback are one step; and so are the two calls of
`close` in the destructor.
-/

namespace TinyMuduo

namespace Acceptor

def EPERM : Errno := 1
def EINTR : Errno := 4
def EAGAIN : Errno := 11
def EMFILE : Errno := 24
def EPROTO : Errno := 71
def ECONNABORTED : Errno := 103

/-- The errors after which `sockets::accept` returns; after the others it aborts. -/
def expected (savedErrno : Errno) : Bool :=
  savedErrno ∈ [EAGAIN, ECONNABORTED, EINTR, EPROTO, EPERM, EMFILE]

inductive Owner where
  /-- `acceptSocket_` -/
  | listen
  /-- `idleFd_` -/
  | idle
  /-- A connection that is accepted in order to be closed. -/
  | refused (peer : Nat)
  /-- A connection that was accepted for the callback. -/
  | conn (peer : Nat)
  | other
  deriving DecidableEq, Repr

/-- The next system call of `handleRead`. -/
inductive Step where
  | done
  | closeIdle
  | accept
  | closeRefused
  | reopen
  deriving DecidableEq, Repr

/-- What `accept` returns. -/
inductive Answer where
  | connection
  | error (e : Errno)
  deriving DecidableEq, Repr

inductive Fault where
  /-- `LOG_FATAL` in `sockets::createNonblockingOrDie` -/
  | socket
  /-- `idleFd_ >= 0` -/
  | assertIdle
  /-- `LOG_FATAL` in `sockets::accept` -/
  | fatal (e : Errno)
  /-- `close` of a descriptor that is not open, or belongs to somebody else. -/
  | foreign (fd : Nat)
  deriving DecidableEq, Repr

end Acceptor

open Acceptor in
structure Acceptor where
  table : Table Owner
  acceptSocket : Nat
  /-- `none` is `-1`. -/
  idleFd : Option Nat
  newConnectionCallback : Bool
  listenning : Bool
  destroyed : Bool
  step : Step
  /-- The peers that wait to be accepted. -/
  backlog : List Nat
  arrived : Nat
  aborted : Nat
  taken : List (Nat × Option Nat)

namespace Acceptor

open Result

inductive Op where
  | arrive
  /-- A waiting peer is gone. -/
  | abort (i : Nat)
  | listen
  /-- `handleRead` up to the end of the first `accept`. -/
  | handleRead (a : Answer)
  /-- Its next system call. -/
  | next (a : Answer)
  /-- Other code opens a descriptor, or closes one of its own. -/
  | openOther
  | closeOther (fd : Nat)
  /-- The destructor. -/
  | destroy

/-- The constructor, in a process that has `table`. -/
def new (table : Table Owner) (newConnectionCallback : Bool) : Except Fault Acceptor :=
  match table.lowest with
  | none => .error .socket
  | some acceptSocket =>
    let table := table.put acceptSocket .listen
    match table.lowest with
    | none => .error .assertIdle
    | some idleFd =>
      .ok {
        table := table.put idleFd .idle
        acceptSocket
        idleFd := some idleFd
        newConnectionCallback
        listenning := false
        destroyed := false
        step := .done
        backlog := []
        arrived := 0
        aborted := 0
        taken := [] }

def Owner.ofAcceptor : Owner → Bool
  | .idle | .refused _ => true
  | .listen | .conn _ | .other => false

def Owner.ofOthers : Owner → Bool
  | .conn _ | .other => true
  | .listen | .idle | .refused _ => false

/-- `::close(idleFd_)`; `close(-1)` returns `EBADF`. -/
def closeIdle (s : Acceptor) : Except Fault Acceptor :=
  match s.idleFd with
  | none => .ok s
  | some fd => do
    ensure (∃ o ∈ s.table.owner fd, o.ofAcceptor = true) (.foreign fd)
    .ok { s with table := s.table.release fd }

/-- `accept` returns a connection. -/
def accept (s : Acceptor) (o : Nat → Owner) : Option (Nat × Nat × Acceptor) :=
  match s.backlog, s.table.lowest with
  | peer :: backlog, some fd =>
    some (peer, fd, { s with backlog := backlog, table := s.table.put fd (o peer) })
  | _, _ => none

def handleRead (s : Acceptor) : Answer → Except Fault Acceptor
  | .connection =>
    match s.accept .conn with
    | none => .ok s
    | some (peer, connfd, s) =>
      if s.newConnectionCallback then .ok { s with taken := s.taken ++ [(peer, some connfd)] }
      else
        .ok { s with table := s.table.release connfd, taken := s.taken ++ [(peer, none)] }
  | .error savedErrno => do
    ensure (expected savedErrno = true) (.fatal savedErrno)
    .ok (if savedErrno = EMFILE then { s with step := .closeIdle } else s)

def next (s : Acceptor) (a : Answer) : Except Fault Acceptor :=
  match s.step with
  | .done => .ok s
  | .closeIdle => do
    let s ← s.closeIdle
    .ok { s with step := .accept }
  | .accept =>
    match a, s.accept .refused with
    | .connection, some (peer, connfd, s) =>
      .ok { s with
        idleFd := some connfd
        taken := s.taken ++ [(peer, none)]
        step := .closeRefused }
    | _, _ => .ok { s with idleFd := none, step := .closeRefused }
  | .closeRefused => do
    let s ← s.closeIdle
    .ok { s with step := .reopen }
  | .reopen =>
    match s.table.lowest with
    | none => .ok { s with idleFd := none, step := .done }
    | some fd =>
      .ok { s with table := s.table.put fd .idle, idleFd := some fd, step := .done }

/-- The destructor, with that of `acceptSocket_`. -/
def destroy (s : Acceptor) : Except Fault Acceptor := do
  let s ← s.closeIdle
  ensure (s.table.owner s.acceptSocket = some .listen) (.foreign s.acceptSocket)
  .ok { s with table := s.table.release s.acceptSocket, destroyed := true }

def exec (s : Acceptor) : Op → Except Fault Acceptor
  | .arrive => .ok { s with backlog := s.backlog ++ [s.arrived], arrived := s.arrived + 1 }
  | .abort i => .ok { s with backlog := s.backlog.eraseIdx i, aborted := s.aborted + 1 }
  | .listen => .ok { s with listenning := true }
  | .handleRead a => s.handleRead a
  | .next a => s.next a
  | .openOther =>
    match s.table.lowest with
    | none => .ok s
    | some fd => .ok { s with table := s.table.put fd .other }
  | .closeOther fd => .ok { s with table := s.table.release fd }
  | .destroy => s.destroy

/-- The kernel may give this answer to `accept`. -/
def Possible (s : Acceptor) : Answer → Prop
  | .connection => s.backlog ≠ [] ∧ s.table.lowest ≠ none
  | .error e => e = EMFILE → s.table.lowest = none

def Enabled (s : Acceptor) : Op → Prop
  | .arrive | .openOther => True
  | .abort i => i < s.backlog.length
  | .listen => s.destroyed = false
  | .handleRead a => s.destroyed = false ∧ s.listenning = true ∧ s.step = .done ∧ s.Possible a
  | .next a => s.step ≠ .done ∧ (s.step = .accept → s.Possible a)
  | .closeOther fd => ∃ o ∈ s.table.owner fd, o.ofOthers = true
  | .destroy => s.destroyed = false ∧ s.step = .done

/-- `accept` fails only in ways that `sockets::accept` expects. -/
def Sound (_ : Acceptor) : Op → Prop
  | .handleRead (.error e) => expected e = true
  | _ => True

instance (s : Acceptor) : (a : Answer) → Decidable (s.Possible a)
  | .connection => inferInstanceAs (Decidable (_ ∧ _))
  | .error _ => inferInstanceAs (Decidable (_ → _))

instance (s : Acceptor) : (op : Op) → Decidable (s.Enabled op)
  | .arrive | .openOther => isTrue trivial
  | .abort _ => inferInstanceAs (Decidable (_ < _))
  | .listen => inferInstanceAs (Decidable (_ = _))
  | .handleRead _ | .next _ | .destroy => inferInstanceAs (Decidable (_ ∧ _))
  | .closeOther fd => inferInstanceAs (Decidable (∃ o ∈ s.table.owner fd, o.ofOthers = true))

instance (s : Acceptor) : (op : Op) → Decidable (s.Sound op)
  | .handleRead (.error e) => inferInstanceAs (Decidable (expected e = true))
  | .handleRead .connection | .arrive | .abort _ | .listen | .next _ | .openOther | .closeOther _
  | .destroy => isTrue trivial

def machine : Machine Acceptor Op Fault where
  enabled := Enabled
  exec := exec

instance (s : Acceptor) (op : Op) : Decidable (machine.enabled s op) :=
  inferInstanceAs (Decidable (s.Enabled op))

end Acceptor
end TinyMuduo

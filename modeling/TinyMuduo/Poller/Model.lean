import Mathlib.Logic.Function.Basic
import TinyMuduo.Lib.Result
import TinyMuduo.Poller.Channel

/-!
# Poller.Model

`PollPoller` and `EPollPoller`. A channel is named by its address (`ChannelId`); `channels_` maps a
descriptor to one. `PollPoller` keeps the array for `poll(2)` and marks a channel with its slot in
it. `EPollPoller` keeps the interest list in the kernel and marks a channel with
`kNew`/`kAdded`/`kDeleted`. `Polled P` is a poller together with the channels its loop owns.
-/

namespace TinyMuduo

abbrev ChannelId := Nat

inductive PollerAssertion where
  /-- `channels_.find(fd) == channels_.end()` -/
  | unknownFd
  /-- `channels_.find(fd) != channels_.end()` -/
  | knownFd
  /-- `channels_[fd] == channel` -/
  | sameChannel
  /-- `0 <= idx && idx < pollfds_.size()` -/
  | slotInRange
  /-- what `pollfds_[idx]` must say about the channel -/
  | slotOfChannel
  /-- `channel->isNoneEvent()` -/
  | noneEvent
  /-- `index == kAdded`, and `index == kAdded || index == kDeleted` in `removeChannel` -/
  | indexAdded
  deriving DecidableEq, Repr

inductive PollerFault where
  | assertion (a : PollerAssertion)
  /-- `epoll_ctl` failed with `LOG_SYSFATAL`. -/
  | ctlFatal
  /-- `channels_[fd]` is a null pointer and is used. -/
  | nullChannel
  deriving DecidableEq, Repr

def require (p : Prop) [Decidable p] (a : PollerAssertion) : Except PollerFault Unit :=
  Result.ensure p (.assertion a)

theorem require_ok {p : Prop} [Decidable p] (h : p) (a : PollerAssertion) :
    require p a = .ok () := Result.ensure_pos h _

structure Polled (P : Type) where
  poller : P
  chans : ChannelId → Channel

namespace Polled

/-- `channel->set_index(index)`. -/
def setIndex {P : Type} (s : Polled P) (c : ChannelId) (index : Int) : Polled P :=
  { s with chans := Function.update s.chans c { s.chans c with index := index } }

def interest {P : Type} (s : Polled P) (c : ChannelId) (i : Channel.Interest) : Polled P :=
  { s with chans := Function.update s.chans c ((s.chans c).interest i) }

variable {P : Type} (s : Polled P) {c d : ChannelId}

@[simp] theorem interest_self (i : Channel.Interest) :
    (s.interest c i).chans c = (s.chans c).interest i := Function.update_self ..

@[simp] theorem interest_ne (i : Channel.Interest) (h : d ≠ c) :
    (s.interest c i).chans d = s.chans d := Function.update_of_ne h ..

@[simp] theorem interest_poller (i : Channel.Interest) : (s.interest c i).poller = s.poller := rfl

@[simp] theorem setIndex_poller (k : Int) : (s.setIndex c k).poller = s.poller := rfl

@[simp] theorem setIndex_self (k : Int) :
    (s.setIndex c k).chans c = { s.chans c with index := k } := Function.update_self ..

@[simp] theorem setIndex_ne (k : Int) (h : d ≠ c) : (s.setIndex c k).chans d = s.chans d :=
  Function.update_of_ne h ..

end Polled

/-! ## `PollPoller` -/

structure PollFd where
  fd : Int
  events : BitVec 16
  revents : BitVec 16
  deriving DecidableEq, Repr

structure PollPoller where
  pollfds : List PollFd
  channels : Int → Option ChannelId

namespace PollPoller

def init : PollPoller := ⟨[], fun _ => none⟩

/-- The channel gets the slot at the end. -/
def pushSlot (s : Polled PollPoller) (c : ChannelId) : Polled PollPoller :=
  let ch := s.chans c
  let p : PollPoller :=
    { pollfds := s.poller.pollfds ++ [⟨ch.fd, ch.events.setWidth 16, 0⟩]
      channels := Function.update s.poller.channels ch.fd (some c) }
  { s with poller := p }.setIndex c s.poller.pollfds.length

def addChannel (s : Polled PollPoller) (c : ChannelId) :
    Except PollerFault (Polled PollPoller) := do
  require (s.poller.channels (s.chans c).fd = none) .unknownFd
  .ok (pushSlot s c)

/-- The slot of an existing channel after `updateChannel`. Its descriptor is negated when the
interest set becomes empty, and stays as it is otherwise. -/
def refresh (pfd : PollFd) (ch : Channel) : PollFd where
  fd := if ch.isNoneEvent then -ch.fd - 1 else pfd.fd
  events := ch.events.setWidth 16
  revents := 0

def setSlot (s : Polled PollPoller) (idx : Nat) (pfd : PollFd) : Polled PollPoller :=
  { s with poller := { s.poller with pollfds := s.poller.pollfds.set idx pfd } }

def modifyChannel (s : Polled PollPoller) (c : ChannelId) :
    Except PollerFault (Polled PollPoller) := do
  let ch := s.chans c
  require (s.poller.channels ch.fd ≠ none) .knownFd
  require (s.poller.channels ch.fd = some c) .sameChannel
  require (0 ≤ ch.index) .slotInRange
  match s.poller.pollfds[ch.index.toNat]? with
  | none => .error (.assertion .slotInRange)
  | some pfd => do
    require (pfd.fd = ch.fd ∨ pfd.fd = -ch.fd - 1) .slotOfChannel
    .ok (setSlot s ch.index.toNat (refresh pfd ch))

def updateChannel (s : Polled PollPoller) (c : ChannelId) :
    Except PollerFault (Polled PollPoller) :=
  if (s.chans c).index < 0 then addChannel s c else modifyChannel s c

/-- The descriptor a slot stands for. -/
def slotFd (pfd : PollFd) : Int := if pfd.fd < 0 then -pfd.fd - 1 else pfd.fd

/-- The last slot moves to `idx`, and its channel `d` is told. -/
def moveLast (s : Polled PollPoller) (idx : Nat) (last : PollFd) (d : ChannelId) :
    Polled PollPoller :=
  { s with poller :=
    { s.poller with pollfds := (s.poller.pollfds.set idx last).dropLast } }.setIndex d idx

def dropSlot (s : Polled PollPoller) (idx : Nat) : Except PollerFault (Polled PollPoller) :=
  if idx = s.poller.pollfds.length - 1 then
    .ok { s with poller := { s.poller with pollfds := s.poller.pollfds.dropLast } }
  else
    match s.poller.pollfds.getLast? with
    | none => .error (.assertion .slotInRange)
    | some last =>
      match s.poller.channels (slotFd last) with
      | none => .error .nullChannel
      | some d => .ok (moveLast s idx last d)

/-- `channels_.erase(fd)`. -/
def eraseFd (s : Polled PollPoller) (f : Int) : Polled PollPoller :=
  { s with poller := { s.poller with channels := Function.update s.poller.channels f none } }

def removeChannel (s : Polled PollPoller) (c : ChannelId) :
    Except PollerFault (Polled PollPoller) := do
  let ch := s.chans c
  require (s.poller.channels ch.fd ≠ none) .knownFd
  require (s.poller.channels ch.fd = some c) .sameChannel
  require (ch.isNoneEvent = true) .noneEvent
  require (0 ≤ ch.index) .slotInRange
  match s.poller.pollfds[ch.index.toNat]? with
  | none => .error (.assertion .slotInRange)
  | some pfd => do
    require (pfd.fd = -ch.fd - 1 ∧ pfd.events.signExtend 32 = ch.events) .slotOfChannel
    dropSlot (eraseFd s ch.fd) ch.index.toNat

/-- `poll(2)` ignores slots with a negative descriptor. -/
def Watches (p : PollPoller) (fd : Int) (e : Events) : Prop :=
  0 ≤ fd ∧ ∃ pfd ∈ p.pollfds, pfd.fd = fd ∧ pfd.events.setWidth 32 = e

end PollPoller

/-! ## `EPollPoller` -/

inductive CtlOp where
  | add
  | mod
  | del
  deriving DecidableEq, Repr

structure EPollPoller where
  channels : Int → Option ChannelId
  /-- The interest list in the kernel: the events of a descriptor and its `data.ptr`. -/
  kernel : Int → Option (Events × ChannelId)

namespace EPollPoller

def kNew : Int := -1
def kAdded : Int := 1
def kDeleted : Int := 2

def init : EPollPoller := ⟨fun _ => none, fun _ => none⟩

/-- `epoll_ctl(2)`; `none` is an error return. -/
def epollCtl (kernel : Int → Option (Events × ChannelId)) (op : CtlOp) (fd : Int)
    (ev : Events × ChannelId) : Option (Int → Option (Events × ChannelId)) :=
  match op, kernel fd with
  | .add, none => some (Function.update kernel fd (some ev))
  | .mod, some _ => some (Function.update kernel fd (some ev))
  | .del, some _ => some (Function.update kernel fd none)
  | .add, some _ | .mod, none | .del, none => none

def update (p : EPollPoller) (op : CtlOp) (c : ChannelId) (ch : Channel) :
    Except PollerFault EPollPoller :=
  match epollCtl p.kernel op ch.fd (ch.events, c) with
  | some kernel => .ok { p with kernel := kernel }
  | none => if op = .del then .ok p else .error .ctlFatal

/-- `updateChannel`: the poller and the new `index_` of the channel. -/
def updateChannel (p : EPollPoller) (c : ChannelId) (ch : Channel) :
    Except PollerFault (EPollPoller × Int) :=
  if ch.index = kNew ∨ ch.index = kDeleted then do
    if ch.index = kNew then
      require (p.channels ch.fd = none) .unknownFd
      let p' ← { p with channels := Function.update p.channels ch.fd (some c) }.update .add c ch
      .ok (p', kAdded)
    else
      require (p.channels ch.fd ≠ none) .knownFd
      require (p.channels ch.fd = some c) .sameChannel
      let p' ← p.update .add c ch
      .ok (p', kAdded)
  else do
    require (p.channels ch.fd ≠ none) .knownFd
    require (p.channels ch.fd = some c) .sameChannel
    require (ch.index = kAdded) .indexAdded
    if ch.isNoneEvent then
      let p' ← p.update .del c ch
      .ok (p', kDeleted)
    else
      let p' ← p.update .mod c ch
      .ok (p', ch.index)

def removeChannel (p : EPollPoller) (c : ChannelId) (ch : Channel) :
    Except PollerFault (EPollPoller × Int) := do
  require (p.channels ch.fd ≠ none) .knownFd
  require (p.channels ch.fd = some c) .sameChannel
  require (ch.isNoneEvent = true) .noneEvent
  require (ch.index = kAdded ∨ ch.index = kDeleted) .indexAdded
  let p' : EPollPoller := { p with channels := Function.update p.channels ch.fd none }
  let p'' ← if ch.index = kAdded then p'.update .del c ch else .ok p'
  .ok (p'', kNew)

def Watches (p : EPollPoller) (fd : Int) (e : Events) : Prop := (p.kernel fd).map Prod.fst = some e

end EPollPoller
end TinyMuduo

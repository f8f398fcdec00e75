import Mathlib.Data.Int.Basic

/-!
# Poller.Channel

`muduo::net::Channel`: a descriptor, the events its owner is interested in (`events_`), the events
the poller reported (`revents_`), and the mark the poller leaves on it (`index_`). An interest
operation changes `events_` and then calls `update()`, which is the poller's part.
-/

namespace TinyMuduo

abbrev Events := BitVec 32

def POLLIN : Events := 0x001#32
def POLLPRI : Events := 0x002#32
def POLLOUT : Events := 0x004#32
def POLLERR : Events := 0x008#32
def POLLHUP : Events := 0x010#32
def POLLNVAL : Events := 0x020#32
def POLLRDHUP : Events := 0x2000#32

structure Channel where
  fd : Int
  events : Events
  revents : Events
  index : Int
  deriving DecidableEq, Repr

namespace Channel

def kNoneEvent : Events := 0#32
def kReadEvent : Events := POLLIN ||| POLLPRI
def kWriteEvent : Events := POLLOUT

/-- `Channel::Channel(loop, fd)`. -/
def new (fd : Int) : Channel := ⟨fd, 0#32, 0#32, -1⟩

/-- The operations on `events_`. -/
inductive Interest where
  | enableReading
  | enableWriting
  | disableWriting
  | disableAll
  deriving DecidableEq, Repr

def Interest.apply : Interest → Events → Events
  | .enableReading, e => e ||| kReadEvent
  | .enableWriting, e => e ||| kWriteEvent
  | .disableWriting, e => e &&& ~~~kWriteEvent
  | .disableAll, _ => kNoneEvent

def interest (ch : Channel) (i : Interest) : Channel := { ch with events := i.apply ch.events }

def enableReading (ch : Channel) : Channel := ch.interest .enableReading
def enableWriting (ch : Channel) : Channel := ch.interest .enableWriting
def disableWriting (ch : Channel) : Channel := ch.interest .disableWriting
def disableAll (ch : Channel) : Channel := ch.interest .disableAll

def isNoneEvent (ch : Channel) : Bool := ch.events == kNoneEvent
def isWriting (ch : Channel) : Bool := ch.events &&& kWriteEvent != 0#32

/-- The callbacks of a channel. -/
inductive Callback where
  | close
  | error
  | read
  | write
  deriving DecidableEq, Repr

/-- `handleEventWithGuard`: the callbacks made for `revents_`, in order. -/
def callbacks (ch : Channel) : List Callback :=
  (if ch.revents &&& POLLHUP ≠ 0#32 ∧ ch.revents &&& POLLIN = 0#32 then [.close] else []) ++
  (if ch.revents &&& (POLLERR ||| POLLNVAL) ≠ 0#32 then [.error] else []) ++
  (if ch.revents &&& (POLLIN ||| POLLPRI ||| POLLRDHUP) ≠ 0#32 then [.read] else []) ++
  (if ch.revents &&& POLLOUT ≠ 0#32 then [.write] else [])

theorem callbacks_sublist (ch : Channel) :
    ch.callbacks.Sublist [.close, .error, .read, .write] := by
  unfold callbacks
  refine ((((?_ : List.Sublist _ [Callback.close]).append (?_ : List.Sublist _ [.error])).append
    (?_ : List.Sublist _ [.read])).append (?_ : List.Sublist _ [.write])) <;>
  · split
    · exact List.Sublist.refl _
    · exact List.nil_sublist _

/-- The interest sets a channel can have. -/
def Interests (e : Events) : Prop :=
  e = kNoneEvent ∨ e = kReadEvent ∨ e = kWriteEvent ∨ e = kReadEvent ||| kWriteEvent

theorem apply_interests (i : Interest) {e : Events} (h : Interests e) : Interests (i.apply e) := by
  rcases h with rfl | rfl | rfl | rfl <;> cases i <;> unfold Interests <;> decide

/-- An interest set survives `static_cast<short>`. -/
theorem Interests.short {e : Events} (h : Interests e) : (e.setWidth 16).signExtend 32 = e := by
  rcases h with rfl | rfl | rfl | rfl <;> decide

@[simp] theorem interest_fd (ch : Channel) (i : Interest) : (ch.interest i).fd = ch.fd := rfl
@[simp] theorem interest_index (ch : Channel) (i : Interest) :
    (ch.interest i).index = ch.index := rfl
@[simp] theorem interest_events (ch : Channel) (i : Interest) :
    (ch.interest i).events = i.apply ch.events := rfl

theorem isWriting_enableWriting (ch : Channel) : ch.enableWriting.isWriting = true := by
  have h : (ch.events ||| kWriteEvent) &&& kWriteEvent = kWriteEvent := by
    apply BitVec.eq_of_getLsbD_eq
    intro i _
    cases h : kWriteEvent.getLsbD i <;> simp [h]
  simp only [isWriting, enableWriting, interest, Interest.apply, h]
  decide

theorem isWriting_disableWriting (ch : Channel) : ch.disableWriting.isWriting = false := by
  have h : (ch.events &&& ~~~kWriteEvent) &&& kWriteEvent = 0#32 := by
    apply BitVec.eq_of_getLsbD_eq
    intro i hi
    simp [hi]
  simp only [isWriting, disableWriting, interest, Interest.apply, h]
  decide

theorem isWriting_enableReading (ch : Channel) :
    ch.enableReading.isWriting = ch.isWriting := by
  have h : (ch.events ||| kReadEvent) &&& kWriteEvent = ch.events &&& kWriteEvent := by
    apply BitVec.eq_of_getLsbD_eq
    intro i hi
    have hdis : (kReadEvent &&& kWriteEvent).getLsbD i = false := by
      have : kReadEvent &&& kWriteEvent = 0#32 := by decide
      rw [this]; simp
    rw [BitVec.getLsbD_and] at hdis
    simp only [BitVec.getLsbD_and, BitVec.getLsbD_or]
    cases h₁ : ch.events.getLsbD i <;> simp_all
  simp only [isWriting, enableReading, interest, Interest.apply, h]

end Channel
end TinyMuduo

import TinyMuduo.Lib.ByteOrder
import TinyMuduo.Lib.Machine
import TinyMuduo.Lib.Result

/-!
# Log.Model

`AsyncLogging`: any number of threads append lines to `currentBuffer_`, and a logging thread swaps
out the full buffers and writes them to a `LogFile`.

* A lock section is one step. A timed wait releases the mutex and returns at any time, notified or
  not; the code looks at nothing after it, so the step out of the wait is always enabled.
* The owning pointers (`BufferPtr`) are options: moving one leaves it null. A null pointer that is
  used is a fault, like a failed assertion.
* `lines` and `batches` record what was appended, in the order of the lock, and what was swapped
  out, before buffers are dropped from it.
-/

namespace TinyMuduo

open Result

namespace AsyncLogging

/-- The bytes of a `FixedBuffer<kLargeBuffer>` up to `cur_`. -/
abbrev LogBuffer := List Byte

def kLargeBuffer : Nat := 4000 * 1000

def avail (b : LogBuffer) : Nat := kLargeBuffer - b.length

/-- `FixedBuffer::append`: what does not fit is left out. -/
def appendTo (b : LogBuffer) (line : List Byte) : LogBuffer :=
  if line.length < avail b then b ++ line else b

/-- What the `LogFile` is given. -/
inductive Record where
  /-- the line that announces how many buffers are dropped -/
  | notice (buffers : Nat)
  | data (bytes : List Byte)
  deriving DecidableEq, Repr

inductive Fault where
  | notRunning
  | newBuffer1
  | newBuffer2
  | buffersToWrite
  | nullBuffer
  deriving DecidableEq, Repr

/-- Where the logging thread is. -/
inductive Pc where
  | created
  /-- started, before the assertion on `running_` -/
  | begun
  /-- at the test of `running_` -/
  | head
  /-- about to lock the mutex -/
  | lock
  /-- in `waitForSeconds` -/
  | waiting
  /-- the buffers are swapped out, the mutex is released -/
  | swapped
  /-- the buffers before `i` are written -/
  | writing (i : Nat)
  | refill
  | exited
  deriving DecidableEq, Repr

end AsyncLogging

open AsyncLogging in
structure AsyncLogging where
  running : Bool
  currentBuffer : Option LogBuffer
  nextBuffer : Option LogBuffer
  buffers : List LogBuffer
  pc : Pc
  newBuffer1 : Option LogBuffer
  newBuffer2 : Option LogBuffer
  buffersToWrite : List LogBuffer
  output : List Record
  lines : List (List Byte)
  batches : List (List LogBuffer)
  /-- the lines appended before `stop()` -/
  atStop : Option (List (List Byte))
  stopReturned : Bool
  deriving DecidableEq

namespace AsyncLogging

def init : AsyncLogging where
  running := false
  currentBuffer := some []
  nextBuffer := some []
  buffers := []
  pc := .created
  newBuffer1 := none
  newBuffer2 := none
  buffersToWrite := []
  output := []
  lines := []
  batches := []
  atStop := none
  stopReturned := false

def append (s : AsyncLogging) (line : List Byte) : Except Fault AsyncLogging :=
  match s.currentBuffer with
  | none => .error .nullBuffer
  | some current =>
    if line.length < avail current then
      .ok { s with
        currentBuffer := some (appendTo current line)
        lines := s.lines ++ [line] }
    else
      .ok { s with
        buffers := s.buffers ++ [current]
        currentBuffer := some (appendTo (s.nextBuffer.getD []) line)
        nextBuffer := none
        lines := s.lines ++ [line] }

/-! ## `threadFunc` -/

/-- The lock section, from the `push_back` on. -/
def swap (s : AsyncLogging) : Except Fault AsyncLogging :=
  match s.currentBuffer with
  | none => .error .nullBuffer
  | some current =>
    .ok { s with
      currentBuffer := s.newBuffer1
      newBuffer1 := none
      buffersToWrite := s.buffers ++ [current]
      buffers := s.buffersToWrite
      nextBuffer := if s.nextBuffer = none then s.newBuffer2 else s.nextBuffer
      newBuffer2 := if s.nextBuffer = none then none else s.newBuffer2
      pc := .swapped }

/-- What remains of a batch: of more than 25 buffers, the first two. -/
def keep (batch : List LogBuffer) : List LogBuffer :=
  if 25 < batch.length then batch.take 2 else batch

def announce (batch : List LogBuffer) : List Record :=
  if 25 < batch.length then [.notice (batch.length - 2)] else []

/-- One of the two refills: the last buffer is taken and reset, unless the pointer is not null. -/
def refillOne (newBuffer : Option LogBuffer) (buffersToWrite : List LogBuffer) :
    Except Fault (Option LogBuffer × List LogBuffer) :=
  match newBuffer with
  | some b => .ok (some b, buffersToWrite)
  | none => do
    ensure (buffersToWrite ≠ []) .buffersToWrite
    .ok (some [], buffersToWrite.dropLast)

def refill (s : AsyncLogging) : Except Fault AsyncLogging := do
  let (newBuffer1, toWrite) ← refillOne s.newBuffer1 s.buffersToWrite
  let (newBuffer2, _) ← refillOne s.newBuffer2 toWrite
  .ok { s with
    newBuffer1 := newBuffer1
    newBuffer2 := newBuffer2
    buffersToWrite := []
    pc := .head }

def enterLoop (s : AsyncLogging) : Except Fault AsyncLogging := do
  ensure (s.newBuffer1 = some []) .newBuffer1
  ensure (s.newBuffer2 = some []) .newBuffer2
  ensure (s.buffersToWrite = []) .buffersToWrite
  .ok { s with pc := .lock }

/-- A step of the logging thread. -/
def step (s : AsyncLogging) : Except Fault AsyncLogging :=
  match s.pc with
  | .created => .ok s
  | .begun => do
    ensure (s.running = true) .notRunning
    .ok { s with newBuffer1 := some [], newBuffer2 := some [], pc := .head }
  | .head => if s.running then s.enterLoop else .ok { s with pc := .exited }
  | .lock => if s.buffers = [] then .ok { s with pc := .waiting } else s.swap
  | .waiting => s.swap
  | .swapped => do
    ensure (s.buffersToWrite ≠ []) .buffersToWrite
    .ok { s with
      output := s.output ++ announce s.buffersToWrite
      batches := s.batches ++ [s.buffersToWrite]
      buffersToWrite := keep s.buffersToWrite
      pc := .writing 0 }
  | .writing i =>
    match s.buffersToWrite[i]? with
    | some b => .ok { s with output := s.output ++ [.data b], pc := .writing (i + 1) }
    | none => .ok { s with buffersToWrite := s.buffersToWrite.take 2, pc := .refill }
  | .refill => s.refill
  | .exited => .ok s

/-! ## The threads together -/

inductive Op where
  | append (line : List Byte)
  | start
  /-- `running_ = false` in `stop()` -/
  | stop
  /-- `join()` returns -/
  | stopReturn
  | log
  deriving DecidableEq, Repr

def exec (s : AsyncLogging) : Op → Except Fault AsyncLogging
  | .append line => s.append line
  | .start => .ok { s with running := true, pc := .begun }
  | .stop => .ok { s with running := false, atStop := some s.lines }
  | .stopReturn => .ok { s with stopReturned := true }
  | .log => s.step

/-- Lines fit in an empty buffer. There is one `start()`, which returns when the thread has counted
the latch down, and after it at most one `stop()`. -/
def Enabled (s : AsyncLogging) : Op → Prop
  | .append line => line.length < kLargeBuffer
  | .start => s.pc = .created
  | .stop => s.pc ≠ .created ∧ s.pc ≠ .begun ∧ s.atStop = none
  | .stopReturn => s.pc = .exited ∧ s.atStop ≠ none
  | .log => s.pc ≠ .created ∧ s.pc ≠ .exited

instance (s : AsyncLogging) : (op : Op) → Decidable (s.Enabled op)
  | .append line => inferInstanceAs (Decidable (line.length < kLargeBuffer))
  | .start => inferInstanceAs (Decidable (s.pc = .created))
  | .stop => inferInstanceAs (Decidable (s.pc ≠ .created ∧ s.pc ≠ .begun ∧ s.atStop = none))
  | .stopReturn => inferInstanceAs (Decidable (s.pc = .exited ∧ s.atStop ≠ none))
  | .log => inferInstanceAs (Decidable (s.pc ≠ .created ∧ s.pc ≠ .exited))

end AsyncLogging

def asyncLogging : Machine AsyncLogging AsyncLogging.Op AsyncLogging.Fault where
  enabled := AsyncLogging.Enabled
  exec := AsyncLogging.exec

end TinyMuduo

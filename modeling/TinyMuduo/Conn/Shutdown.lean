import TinyMuduo.Lib.Machine
import TinyMuduo.Conn.Correct
import TinyMuduo.Conn.Stream

/-!
# Conn.Shutdown

`send()` and `shutdown()` of one connection, called in any thread. Thread `0` is the loop thread:
there both functions act at once. In any other thread they push a functor, and the loop thread
runs the functors first in, first out. Every access to `state_` and every push is a step of its
own. The write-complete and high-water-mark functors only run user code, which is any further
call of thread `0`.

`shutdown()` promises to flush first, but `shutdownInLoop` and `handleWrite` look at `POLLOUT`
interest alone. A message whose `sendInLoop` functor still waits in the queue is not seen, so
`SHUT_WR` overtakes it (`Overtakes`). Without such a step no message is lost.
-/

namespace TinyMuduo
namespace TcpConnection

open Buffer Result

/-- A functor in the queue of the loop; messages are numbered when they are pushed. -/
inductive Task where
  | sendInLoop (id : Nat) (data : Data)
  | shutdownInLoop

/-- Where a thread is inside `send()` or `shutdown()`. -/
inductive Pc where
  | idle
  /-- `send()` has found `kConnected`. -/
  | sending (data : Data)
  /-- Message `id` is sent or pushed; `send()` has not returned. -/
  | sent (id : Nat)
  /-- `shutdown()` has found `kConnected`. -/
  | shutting
  /-- `shutdown()` has set `kDisconnecting`. -/
  | shut
  deriving DecidableEq

structure Link where
  conn : TcpConnection
  wire : List Byte
  queue : List Task
  pc : Nat → Pc
  /-- The number of the next message. -/
  next : Nat
  /-- The messages `sendInLoop` was called with, in order. -/
  executed : List (Nat × List Byte)
  /-- The messages whose `send()` has returned. -/
  returned : List Nat
  /-- The messages whose `send()` had returned when `shutdown()` was called. -/
  must : List Nat
  called : Bool
  shutWr : Bool

inductive LinkOp where
  | callSend (t : Nat) (data : Data)
  | enterSend (t : Nat) (w : Write)
  | returnSend (t : Nat)
  | callShutdown (t : Nat)
  | setShutdown (t : Nat)
  | enterShutdown (t : Nat)
  | runFunctor (w : Write)
  | handleWrite (w : Write)

def Task.id? : Task → Option Nat
  | .sendInLoop id _ => some id
  | .shutdownInLoop => none

namespace Link

def start (c : TcpConnection) : Link :=
  ⟨c, [], [], fun _ => .idle, 0, [], [], [], false, false⟩

/-- The messages whose `sendInLoop` functor is in the queue. -/
def waiting (s : Link) : List Nat := s.queue.filterMap Task.id?

def goto (s : Link) (t : Nat) (p : Pc) : Link := { s with pc := Function.update s.pc t p }

/-- Thread `t` takes the next number for its message. -/
def number (s : Link) (t : Nat) : Link := { s.goto t (.sent s.next) with next := s.next + 1 }

def push (s : Link) (task : Task) : Link := { s with queue := s.queue ++ [task] }

/-- The loop thread has run one function of the connection. -/
def after (s : Link) (r : TcpConnection × List Effect) : Link :=
  { s with
    conn := r.1
    wire := s.wire ++ written r.2
    shutWr := s.shutWr || r.2.contains .shutdownWrite }

/-- `sendInLoop` with message `id`. -/
def runSend (s : Link) (id : Nat) (data : Data) (w : Write) : Except Stop Link :=
  (s.conn.sendInLoop data.1 w).map fun r =>
    { s.after r with executed := s.executed ++ [(id, data.1)] }

def exec (s : Link) : LinkOp → Except Stop Link
  | .callSend t data =>
    .ok (s.goto t (if s.conn.state = .kConnected then .sending data else .idle))
  | .enterSend t w =>
    match s.pc t with
    | .sending data =>
      if t = 0 then (s.number t).runSend s.next data w
      else .ok ((s.number t).push (.sendInLoop s.next data))
    | _ => .ok s
  | .returnSend t =>
    match s.pc t with
    | .sent id => .ok { s.goto t .idle with returned := s.returned ++ [id] }
    | _ => .ok s
  | .callShutdown t =>
    .ok { s.goto t (if s.conn.state = .kConnected then .shutting else .idle) with
      must := s.returned
      called := true }
  | .setShutdown t =>
    .ok { s.goto t .shut with conn := { s.conn with state := .kDisconnecting } }
  | .enterShutdown t =>
    if t = 0 then .ok ((s.goto t .idle).after (s.conn, s.conn.shutdownInLoop))
    else .ok ((s.goto t .idle).push .shutdownInLoop)
  | .runFunctor w =>
    match s.queue with
    | .sendInLoop id data :: rest => { s with queue := rest }.runSend id data w
    | .shutdownInLoop :: rest =>
      .ok ({ s with queue := rest }.after (s.conn, s.conn.shutdownInLoop))
    | [] => .ok s
  | .handleWrite w => (s.conn.handleWrite w).map s.after

/-- A write of `sendInLoop` takes at most the message; it does not fail while the socket is open
for writing. -/
def WriteOk (s : Link) (data : Data) (w : Write) : Prop :=
  w.Fits data.1.length ∧ (s.shutWr = false → w ≠ .error EPIPE)

/-- Each thread makes one call at a time, the loop thread between its own callbacks and events,
and `shutdown()` is called once. -/
def Enabled (s : Link) : LinkOp → Prop
  | .callSend t _ => s.pc t = .idle
  | .enterSend t w => match s.pc t with
    | .sending data => t = 0 → s.WriteOk data w
    | _ => False
  | .returnSend t => match s.pc t with
    | .sent _ => True
    | _ => False
  | .callShutdown t => s.pc t = .idle ∧ s.called = false
  | .setShutdown t => s.pc t = .shutting
  | .enterShutdown t => s.pc t = .shut
  | .runFunctor w => s.pc 0 = .idle ∧ match s.queue with
    | .sendInLoop _ data :: _ => s.WriteOk data w
    | .shutdownInLoop :: _ => True
    | [] => False
  | .handleWrite w => s.pc 0 = .idle ∧ w.Fits s.conn.outputBuffer.readableBytes

instance (s : Link) (data : Data) (w : Write) : Decidable (s.WriteOk data w) :=
  inferInstanceAs (Decidable (_ ∧ _))

instance (s : Link) : (op : LinkOp) → Decidable (s.Enabled op)
  | .callSend t _ => inferInstanceAs (Decidable (s.pc t = .idle))
  | .enterSend t w =>
    match h : s.pc t with
    | .sending data => decidable_of_iff (t = 0 → s.WriteOk data w) (by simp [Enabled, h])
    | .idle | .sent _ | .shutting | .shut => isFalse (by simp [Enabled, h])
  | .returnSend t =>
    match h : s.pc t with
    | .sent _ => isTrue (by simp [Enabled, h])
    | .idle | .sending _ | .shutting | .shut => isFalse (by simp [Enabled, h])
  | .callShutdown t => inferInstanceAs (Decidable (s.pc t = .idle ∧ s.called = false))
  | .setShutdown t => inferInstanceAs (Decidable (s.pc t = .shutting))
  | .enterShutdown t => inferInstanceAs (Decidable (s.pc t = .shut))
  | .runFunctor w =>
    match h : s.queue with
    | .sendInLoop _ data :: _ =>
      decidable_of_iff (s.pc 0 = .idle ∧ s.WriteOk data w) (by simp [Enabled, h])
    | .shutdownInLoop :: _ => decidable_of_iff (s.pc 0 = .idle) (by simp [Enabled, h])
    | [] => isFalse (by simp [Enabled, h])
  | .handleWrite w =>
    inferInstanceAs (Decidable (s.pc 0 = .idle ∧ w.Fits s.conn.outputBuffer.readableBytes))

/-- The kernel has everything up to the end of message `id`. -/
def HandedOver (s : Link) (id : Nat) : Prop :=
  ∃ before data rest, s.executed = before ++ (id, data) :: rest ∧
    before.flatMap Prod.snd ++ data <+: s.wire

/-- `SHUT_WR` has not overtaken any message `shutdown()` has to wait for. -/
def Graceful (s : Link) : Prop := s.shutWr = true → ∀ id ∈ s.must, s.HandedOver id

/-- The step issues `SHUT_WR`, but not as the `shutdownInLoop` functor: `shutdown()` in the loop
thread with nothing buffered, or the `handleWrite` that empties the buffer of a connection that is
`kDisconnecting`. -/
def Direct (s : Link) : LinkOp → Prop
  | .enterShutdown t => t = 0 ∧ s.conn.channel.isWriting = false
  | .handleWrite w => s.conn.FlushesClosing w
  | _ => False

/-- A direct `SHUT_WR` while a message it has to wait for is still queued. -/
def Overtakes (s : Link) (op : LinkOp) : Prop := s.Direct op ∧ ∃ id ∈ s.must, id ∈ s.waiting

instance (s : Link) : (op : LinkOp) → Decidable (s.Direct op)
  | .enterShutdown _ => inferInstanceAs (Decidable (_ ∧ _))
  | .handleWrite w => inferInstanceAs (Decidable (s.conn.FlushesClosing w))
  | .callSend _ _ | .enterSend _ _ | .returnSend _ | .callShutdown _ | .setShutdown _
  | .runFunctor _ => inferInstanceAs (Decidable False)

instance (s : Link) (op : LinkOp) : Decidable (s.Overtakes op) :=
  inferInstanceAs (Decidable (_ ∧ _))

/-! ## Numbering

Every message has its own number, is executed or waiting once it is pushed, and `shutdown()` only
waits for such messages. -/

/-- The messages that are executed or waiting. -/
def ids (s : Link) : List Nat := s.executed.map Prod.fst ++ s.waiting

structure Numbered (ids : List Nat) (next : Nat) (pc : Nat → Pc) (returned must : List Nat) :
    Prop where
  nodup : ids.Nodup
  below : ∀ id ∈ ids, id < next
  sent : ∀ t id, pc t = .sent id → id ∈ ids
  returned : ∀ id ∈ returned, id ∈ ids
  must : ∀ id ∈ must, id ∈ ids

section Numbered

variable {l l' : List Nat} {next : Nat} {pc : Nat → Pc} {returned must : List Nat}

theorem Numbered.goto (h : Numbered l next pc returned must) (t : Nat) {p : Pc}
    (hp : ∀ id, p = .sent id → id ∈ l) :
    Numbered l next (Function.update pc t p) returned must := by
  refine ⟨h.nodup, h.below, fun u id hu => ?_, h.returned, h.must⟩
  by_cases hut : u = t
  · subst hut
    rw [Function.update_self] at hu
    exact hp id hu
  · rw [Function.update_of_ne hut] at hu
    exact h.sent u id hu

theorem Numbered.grow (h : Numbered l next pc returned must) (hl : l'.Perm (next :: l)) :
    Numbered l' (next + 1) pc returned must := by
  have hnew : next ∉ l := fun hm => Nat.lt_irrefl _ (h.below next hm)
  have hold : ∀ id ∈ l, id ∈ l' := fun id hid => hl.mem_iff.2 (List.mem_cons_of_mem _ hid)
  refine ⟨hl.nodup_iff.2 (List.nodup_cons.2 ⟨hnew, h.nodup⟩), fun id hid => ?_,
    fun u id hu => hold id (h.sent u id hu), fun id hid => hold id (h.returned id hid),
    fun id hid => hold id (h.must id hid)⟩
  rcases List.mem_cons.1 (hl.mem_iff.1 hid) with rfl | hid
  · exact Nat.lt_succ_self _
  · exact Nat.lt_succ_of_lt (h.below id hid)

end Numbered

/-- The messages behind the first `shutdownInLoop` functor. -/
def behind : List Task → List Nat
  | [] => []
  | .sendInLoop _ _ :: q => behind q
  | .shutdownInLoop :: q => q.filterMap Task.id?

theorem behind_subset (q : List Task) : ∀ id ∈ behind q, id ∈ q.filterMap Task.id? := by
  induction q with
  | nil => exact fun id hid => hid
  | cons task q ih =>
    cases task with
    | sendInLoop n data => exact fun id hid => List.mem_cons_of_mem _ (ih id hid)
    | shutdownInLoop => exact fun id hid => hid

theorem behind_append_send (q : List Task) (n : Nat) (data : Data) :
    ∀ id ∈ behind (q ++ [.sendInLoop n data]), id ∈ behind q ∨ id = n := by
  induction q with
  | nil => exact fun id hid => Or.inl hid
  | cons task q ih =>
    cases task with
    | sendInLoop m data' => exact ih
    | shutdownInLoop =>
      intro id hid
      simpa [behind, Task.id?] using hid

theorem behind_append_shutdown (q : List Task) : behind (q ++ [.shutdownInLoop]) = behind q := by
  induction q with
  | nil => rfl
  | cons task q ih =>
    cases task with
    | sendInLoop m data' => exact ih
    | shutdownInLoop => simp [behind, Task.id?]

theorem behind_eq_nil {q : List Task} (h : .shutdownInLoop ∉ q) : behind q = [] := by
  induction q with
  | nil => rfl
  | cons task q ih =>
    cases task with
    | sendInLoop m data => exact ih fun hm => h (List.mem_cons_of_mem _ hm)
    | shutdownInLoop => exact absurd List.mem_cons_self h

/-- Nothing has happened towards a shutdown before `shutdown()` is called. -/
structure Uncalled (state : StateE) (pc : Nat → Pc) (queue : List Task) (shutWr : Bool) :
    Prop where
  state : state = .kConnected
  pc : ∀ t, pc t ≠ .shutting ∧ pc t ≠ .shut
  queue : .shutdownInLoop ∉ queue
  openWr : shutWr = false

/-- The output side, until `SHUT_WR`. -/
structure Flowing (c : TcpConnection) (wire : List Byte) (executed : List (Nat × List Byte)) :
    Prop where
  outgoing : c.Outgoing
  state : c.state ≠ .kDisconnected
  stream : wire ++ c.outputBuffer.readable = executed.flatMap Prod.snd

/-- The invariant, when `l` are the messages that have a number. -/
structure Holding (s : Link) (l : List Nat) : Prop where
  numbered : Numbered l s.next s.pc s.returned s.must
  fifo : ∀ id ∈ s.must, id ∉ behind s.queue
  uncalled : s.called = false → Uncalled s.conn.state s.pc s.queue s.shutWr
  flowing : s.shutWr = false → Flowing s.conn s.wire s.executed
  graceful : s.Graceful

def Inv (s : Link) : Prop := s.Holding s.ids

theorem HandedOver.mono {s s' : Link} {id : Nat} (h : s.HandedOver id)
    {more : List (Nat × List Byte)} (he : s'.executed = s.executed ++ more)
    (hw : s.wire <+: s'.wire) : s'.HandedOver id := by
  obtain ⟨before, data, rest, hx, hp⟩ := h
  exact ⟨before, data, rest ++ more, by rw [he, hx]; simp, hp.trans hw⟩

/-- Once the buffer is empty, every executed message is handed over. -/
theorem handedOver_of_flushed {s : Link} (hw : s.wire = s.executed.flatMap Prod.snd) {id : Nat}
    (hid : id ∈ s.executed.map Prod.fst) : s.HandedOver id := by
  obtain ⟨⟨n, data⟩, hm, rfl⟩ := List.mem_map.1 hid
  obtain ⟨before, rest, hx⟩ := List.append_of_mem hm
  refine ⟨before, data, rest, hx, rest.flatMap Prod.snd, ?_⟩
  rw [hw, hx]
  simp

theorem Graceful.mono {s s' : Link} (h : s.Graceful) (hshut : s'.shutWr = s.shutWr)
    (hmust : s'.must = s.must) {more : List (Nat × List Byte)}
    (he : s'.executed = s.executed ++ more) (hw : s.wire <+: s'.wire) : s'.Graceful := by
  intro hs id hid
  rw [hshut] at hs
  rw [hmust] at hid
  exact (h hs id hid).mono he hw

/-! ## One step -/

theorem Holding.goto {s : Link} {l : List Nat} (h : s.Holding l) (t : Nat) {p : Pc}
    (hp : ∀ id, p = .sent id → id ∈ l)
    (hpc : s.called = false → p ≠ .shutting ∧ p ≠ .shut) : (s.goto t p).Holding l where
  numbered := h.numbered.goto t hp
  fifo := h.fifo
  uncalled := by
    intro hc
    have hu := h.uncalled hc
    refine ⟨hu.state, fun u => ?_, hu.queue, hu.openWr⟩
    by_cases hut : u = t
    · subst hut
      simp only [Link.goto, Function.update_self]
      exact hpc hc
    · simp only [Link.goto, Function.update_of_ne hut]
      exact hu.pc u
  flowing := h.flowing
  graceful := h.graceful

theorem Holding.number {s : Link} {l l' : List Nat} (h : s.Holding l)
    (hl : l'.Perm (s.next :: l)) (t : Nat) : (s.number t).Holding l' := by
  have hgrow : ({ s with next := s.next + 1 } : Link).Holding l' :=
    ⟨h.numbered.grow hl, h.fifo, h.uncalled, h.flowing, h.graceful⟩
  refine hgrow.goto t (fun id hid => ?_) fun _ => ⟨nofun, nofun⟩
  cases hid
  exact hl.mem_iff.2 List.mem_cons_self

/-- The functor of a message no shutdown waits for goes to the end of the queue. -/
theorem Holding.pushSend {s : Link} {id : Nat} (h : s.Holding (s.ids ++ [id])) (hid : id ∉ s.must)
    (data : Data) : (s.push (.sendInLoop id data)).Inv := by
  refine ⟨?_, fun n hn hb => ?_, fun hc => ?_, h.flowing, h.graceful⟩
  · have hids : (s.push (.sendInLoop id data)).ids = s.ids ++ [id] := by
      simp [ids, waiting, push, Task.id?]
    rw [hids]; exact h.numbered
  · rcases behind_append_send s.queue id data n hb with hb | rfl
    · exact h.fifo n hn hb
    · exact hid hn
  · have hu := h.uncalled hc
    refine ⟨hu.state, hu.pc, fun hm => ?_, hu.openWr⟩
    rcases List.mem_append.1 hm with hm | hm
    · exact hu.queue hm
    · cases List.mem_singleton.1 hm

theorem Holding.pushShutdown {s : Link} (h : s.Inv) (hc : s.called = true) :
    (s.push .shutdownInLoop).Inv := by
  refine ⟨?_, fun n hn hb => ?_, fun hc' => ?_, h.flowing, h.graceful⟩
  · have hids : (s.push .shutdownInLoop).ids = s.ids := by
      simp [ids, waiting, push, Task.id?]
    rw [hids]; exact h.numbered
  · rw [push, behind_append_shutdown] at hb
    exact h.fifo n hn hb
  · cases hc'.symm.trans hc

/-- Taking the first functor from the queue. -/
theorem Holding.pop {s : Link} {l : List Nat} {task : Task} {rest : List Task} (h : s.Holding l)
    (hq : s.queue = task :: rest) : ({ s with queue := rest } : Link).Holding l := by
  refine ⟨h.numbered, fun n hn hb => h.fifo n hn ?_, fun hc => ?_, h.flowing, h.graceful⟩
  · rw [hq]
    cases task with
    | sendInLoop id data => exact hb
    | shutdownInLoop => exact behind_subset rest n hb
  · have hu := h.uncalled hc
    exact ⟨hu.state, hu.pc, fun hm => hu.queue (hq ▸ List.mem_cons_of_mem _ hm), hu.openWr⟩

theorem runSend_shutWr {s s' : Link} {id : Nat} {data : Data} {w : Write}
    (hx : s.runSend id data w = .ok s') :
    ∃ r, s.conn.sendInLoop data.1 w = .ok r ∧
      s' = { s.after r with executed := s.executed ++ [(id, data.1)], shutWr := s.shutWr } := by
  obtain ⟨r, hr, rfl⟩ := map_eq_ok hx
  exact ⟨r, hr, by simp [after, sendInLoop_quiet hr]⟩

theorem Flowing.runSend {s s' : Link} {id : Nat} {data : Data} {w : Write}
    (h : Flowing s.conn s.wire s.executed) (hw : w.Fits data.1.length) (hp : w ≠ .error EPIPE)
    (hx : s.runSend id data w = .ok s') :
    Flowing s'.conn s'.wire s'.executed ∧ s'.conn.state = s.conn.state := by
  obtain ⟨⟨c', es⟩, hr, rfl⟩ := runSend_shutWr hx
  rcases sendInLoop_spec h.outgoing h.state data.2 hw (fun _ => hp) with ⟨c₁, es₁, h₁, hs⟩ | ⟨h₁, _⟩
  · cases hr.symm.trans h₁
    refine ⟨⟨hs.outgoing, ?_, ?_⟩, hs.state⟩
    · show c'.state ≠ .kDisconnected
      rw [hs.state]; exact h.state
    · simp only [after, List.append_assoc, hs.stream, List.flatMap_append, ← h.stream]
      simp
  · cases hr.symm.trans h₁

/-- `sendInLoop` runs with a message that is not executed yet. -/
theorem Holding.runSend {s s' : Link} {id : Nat} {data : Data} {w : Write}
    (h : s.Holding (s.executed.map Prod.fst ++ id :: s.waiting)) (hw : s.WriteOk data w)
    (hx : s.runSend id data w = .ok s') : s'.Inv := by
  have hflow := fun hs => (h.flowing hs).runSend hw.1 (hw.2 hs) hx
  obtain ⟨r, hr, rfl⟩ := runSend_shutWr hx
  refine ⟨?_, h.fifo, fun hc => ?_, fun hs => (hflow hs).1, ?_⟩
  · have hids : ({ s.after r with executed := s.executed ++ [(id, data.1)], shutWr := s.shutWr } :
        Link).ids = s.executed.map Prod.fst ++ id :: s.waiting := by
      simp [ids, waiting, after]
    rw [hids]; exact h.numbered
  · have hu := h.uncalled hc
    exact ⟨(hflow hu.openWr).2.trans hu.state, hu.pc, hu.queue, hu.openWr⟩
  · exact h.graceful.mono rfl rfl rfl (List.prefix_append _ _)

/-- `shutdownInLoop` runs when every message it has to wait for is executed. -/
theorem shutdownInLoop_inv {s : Link} (h : s.Inv) (hc : s.called = true)
    (hm : s.conn.channel.isWriting = false → ∀ id ∈ s.must, id ∈ s.executed.map Prod.fst) :
    (s.after (s.conn, s.conn.shutdownInLoop)).Inv := by
  have hwire : (s.after (s.conn, s.conn.shutdownInLoop)).wire = s.wire := by
    simp [after, written_shutdownInLoop]
  refine ⟨h.numbered, h.fifo, fun hc' => ?_, fun hs => ?_, ?_⟩
  · cases hc'.symm.trans hc
  · have hs' : s.shutWr = false := (Bool.or_eq_false_iff.1 hs).1
    refine ⟨(h.flowing hs').outgoing, (h.flowing hs').state, ?_⟩
    rw [hwire]; exact (h.flowing hs').stream
  · intro hs id hid
    cases hshut : s.shutWr with
    | true =>
      exact (h.graceful hshut id hid).mono (List.append_nil _).symm
        ⟨[], by rw [hwire, List.append_nil]⟩
    | false =>
      have hw : s.conn.channel.isWriting = false := by
        have hmem : .shutdownWrite ∈ s.conn.shutdownInLoop := by
          simpa [after, hshut] using hs
        exact (shutdownWrite_mem_shutdownInLoop _).1 hmem
      have hfl := h.flowing hshut
      have hnil : s.conn.outputBuffer.readable = [] := by
        by_contra hne
        rw [hfl.outgoing.writing.2 hne] at hw
        cases hw
      refine handedOver_of_flushed ?_ (hm hw id hid)
      rw [hwire]
      have := hfl.stream
      rwa [hnil, List.append_nil] at this

theorem handleWrite_inv {s s' : Link} {w : Write} (h : s.Inv)
    (hw : w.Fits s.conn.outputBuffer.readableBytes) (hd : ¬ s.Overtakes (.handleWrite w))
    (hx : s.exec (.handleWrite w) = .ok s') : s'.Inv := by
  obtain ⟨⟨c', es⟩, hr, rfl⟩ := map_eq_ok hx
  have hnum : Numbered (s.after (c', es)).ids s.next s.pc s.returned s.must := h.numbered
  cases hshut : s.shutWr with
  | true =>
    refine ⟨hnum, h.fifo, fun hc => ?_, fun hs => ?_, ?_⟩
    · cases (h.uncalled hc).openWr.symm.trans hshut
    · simp [after, hshut] at hs
    · exact h.graceful.mono (by simp [after, hshut]) rfl (List.append_nil _).symm
        (List.prefix_append _ _)
  | false =>
    have hfl := h.flowing hshut
    obtain ⟨c₁, es₁, h₁, hs₁⟩ := handleWrite_spec hfl.outgoing hw
    cases hr.symm.trans h₁
    have hiff := handleWrite_shutdownWrite hfl.outgoing hw hr
    have hstream : (s.wire ++ written es) ++ c'.outputBuffer.readable =
        s.executed.flatMap Prod.snd := by
      rw [List.append_assoc, hs₁.stream, List.append_nil, hfl.stream]
    refine ⟨hnum, h.fifo, fun hc => ?_, fun _ => ⟨hs₁.outgoing, ?_, hstream⟩, ?_⟩
    · have hu := h.uncalled hc
      have hquiet : .shutdownWrite ∉ es := by
        rw [hiff]
        intro hf
        cases hu.state.symm.trans hf.2.2
      exact ⟨hs₁.state.trans hu.state, hu.pc, hu.queue, by simp [after, hshut, hquiet]⟩
    · show c'.state ≠ .kDisconnected
      rw [hs₁.state]; exact hfl.state
    · intro hs id hid
      have hmem : .shutdownWrite ∈ es := by simpa [after, hshut] using hs
      have hflush := hiff.1 hmem
      have hexec : id ∈ s.executed.map Prod.fst := by
        rcases List.mem_append.1 (h.numbered.must id hid) with he | hwait
        · exact he
        · exact absurd ⟨hflush, id, hid, hwait⟩ hd
      refine handedOver_of_flushed ?_ hexec
      rwa [handleWrite_flushed hfl.outgoing hflush hr, List.append_nil] at hstream

theorem enterSend_inv {s s' : Link} {t : Nat} {w : Write} (h : s.Inv)
    (he : s.Enabled (.enterSend t w)) (hx : s.exec (.enterSend t w) = .ok s') : s'.Inv := by
  rw [Enabled] at he
  rw [exec] at hx
  cases hpc : s.pc t with
  | sending data =>
    simp only [hpc] at he hx
    by_cases ht : t = 0
    · rw [if_pos ht] at hx
      exact (Holding.number h List.perm_middle t).runSend (he ht) hx
    · rw [if_neg ht] at hx
      cases hx
      refine (Holding.number h (List.perm_append_singleton _ _) t).pushSend (fun hm => ?_) data
      exact Nat.lt_irrefl _ (h.numbered.below _ (h.numbered.must _ hm))
  | idle | sent _ | shutting | shut => simp only [hpc] at he

theorem runFunctor_inv {s s' : Link} {w : Write} (h : s.Inv)
    (he : s.Enabled (.runFunctor w)) (hx : s.exec (.runFunctor w) = .ok s') : s'.Inv := by
  rw [Enabled] at he
  rw [exec] at hx
  cases hq : s.queue with
  | nil => simp [hq] at he
  | cons task rest =>
    simp only [hq] at he hx
    have hpop := Holding.pop h hq
    cases task with
    | sendInLoop id data =>
      have hids : s.ids = s.executed.map Prod.fst ++ id :: rest.filterMap Task.id? := by
        rw [ids, waiting, hq]; rfl
      rw [hids] at hpop
      exact hpop.runSend he.2 hx
    | shutdownInLoop =>
      cases hx
      have hids : s.ids = ({ s with queue := rest } : Link).ids := by
        rw [ids, waiting, hq]; rfl
      rw [hids] at hpop
      have hc : s.called = true := by
        by_contra hc
        exact (h.uncalled (by simpa using hc)).queue (hq ▸ List.mem_cons_self)
      refine shutdownInLoop_inv hpop hc fun _ id hid => ?_
      rcases List.mem_append.1 (hids ▸ h.numbered.must id hid) with hexec | hwait
      · exact hexec
      · exact absurd (show id ∈ behind s.queue by rw [hq]; exact hwait) (h.fifo id hid)

theorem enterShutdown_inv {s s' : Link} {t : Nat} (h : s.Inv) (he : s.Enabled (.enterShutdown t))
    (hd : ¬ s.Overtakes (.enterShutdown t)) (hx : s.exec (.enterShutdown t) = .ok s') : s'.Inv := by
  have hc : s.called = true := by
    by_contra hc
    exact ((h.uncalled (by simpa using hc)).pc t).2 he
  have hgoto : (s.goto t .idle).Inv := Holding.goto h t nofun fun _ => ⟨nofun, nofun⟩
  rw [exec] at hx
  by_cases ht : t = 0
  · rw [if_pos ht] at hx
    cases hx
    refine shutdownInLoop_inv hgoto hc fun hw id hid => ?_
    rcases List.mem_append.1 (h.numbered.must id hid) with hexec | hwait
    · exact hexec
    · exact absurd ⟨⟨ht, hw⟩, id, hid, hwait⟩ hd
  · rw [if_neg ht] at hx
    cases hx
    exact Holding.pushShutdown hgoto hc

/-- One step keeps the invariant, unless it overtakes a message. -/
theorem exec_inv {s s' : Link} {op : LinkOp} (h : s.Inv) (he : s.Enabled op)
    (hd : ¬ s.Overtakes op) (hx : s.exec op = .ok s') : s'.Inv := by
  cases op with
  | callSend t data =>
    cases hx
    refine Holding.goto h t (fun id hid => ?_) fun _ => ?_
    · split at hid <;> cases hid
    · split <;> exact ⟨nofun, nofun⟩
  | enterSend t w => exact enterSend_inv h he hx
  | returnSend t =>
    rw [Enabled] at he
    rw [exec] at hx
    cases hpc : s.pc t with
    | sent id =>
      simp only [hpc] at hx
      cases hx
      have hgoto := Holding.goto h t (p := .idle) nofun fun _ => ⟨nofun, nofun⟩
      have hn := hgoto.numbered
      refine ⟨⟨hn.nodup, hn.below, hn.sent, fun n hm => ?_, hn.must⟩, hgoto.fifo, hgoto.uncalled,
        hgoto.flowing, hgoto.graceful⟩
      rcases List.mem_append.1 hm with hm | hm
      · exact hn.returned n hm
      · rw [List.mem_singleton.1 hm]
        exact h.numbered.sent t id hpc
    | idle | sending _ | shutting | shut => simp only [hpc] at he
  | callShutdown t =>
    cases hx
    have hu := h.uncalled he.2
    have hn := h.numbered
    have hcall : ({ s with must := s.returned, called := true } : Link).Inv := by
      refine ⟨⟨hn.nodup, hn.below, hn.sent, hn.returned, hn.returned⟩, fun n _ hb => ?_, nofun,
        h.flowing, fun hs => ?_⟩
      · rw [behind_eq_nil hu.queue] at hb
        exact List.not_mem_nil hb
      · cases hu.openWr.symm.trans hs
    refine Holding.goto hcall t (fun id hid => ?_) nofun
    split at hid <;> cases hid
  | setShutdown t =>
    cases hx
    have hc : s.called = true := by
      by_contra hc
      exact ((h.uncalled (by simpa using hc)).pc t).1 he
    have hset : ({ s with conn := { s.conn with state := .kDisconnecting } } : Link).Inv := by
      refine ⟨h.numbered, h.fifo, fun hc' => ?_, fun hs => ?_, h.graceful⟩
      · cases hc'.symm.trans hc
      · have hfl := h.flowing hs
        exact ⟨⟨hfl.outgoing.wf, hfl.outgoing.writing⟩, nofun, hfl.stream⟩
    exact Holding.goto hset t nofun fun hc' => by cases hc'.symm.trans hc
  | enterShutdown t => exact enterShutdown_inv h he hd hx
  | runFunctor w => exact runFunctor_inv h he hx
  | handleWrite w => exact handleWrite_inv h he.2 hd hx

theorem HandedOver.mem {s : Link} {id : Nat} (h : s.HandedOver id) :
    id ∈ s.executed.map Prod.fst := by
  obtain ⟨before, data, rest, hx, _⟩ := h
  rw [hx]
  simp

theorem start_inv {c : TcpConnection} (hc : c.Established) : (start c).Inv := by
  have hinv := hc.inv
  refine ⟨⟨List.nodup_nil, nofun, nofun, nofun, nofun⟩, nofun, fun _ => ?_, fun _ => ?_, nofun⟩
  · exact ⟨hc.state, fun _ => ⟨nofun, nofun⟩, nofun, rfl⟩
  · have hup : c.state ≠ .kDisconnected := by rw [hc.state]; nofun
    exact ⟨hinv.outgoing hup, hup, hinv.stream⟩

end Link

def link : Machine Link LinkOp Stop where
  enabled := Link.Enabled
  exec := Link.exec

instance (s : Link) (op : LinkOp) : Decidable (link.enabled s op) :=
  inferInstanceAs (Decidable (s.Enabled op))

end TcpConnection
end TinyMuduo

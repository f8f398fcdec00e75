import TinyMuduo.Lib.Machine
import TinyMuduo.Conn.Correct

/-!
# Conn.Stream

The output stream of one established connection over whole runs. A `Session` is the connection
and the bytes the kernel has accepted from it; it ends when the state becomes `kDisconnected`.
The run invariant is `Session.Inv`: what the kernel has, followed by `outputBuffer_`, is the data
of all `sendInLoop` calls in call order.
-/

namespace TinyMuduo
namespace TcpConnection

open Buffer Result

structure Session where
  conn : TcpConnection
  wire : List Byte

inductive SessionOp where
  | sendInLoop (data : Data) (w : Write)
  | handleWrite (w : Write)
  | shutdownInLoop
  | shutdown
  | handleRead (r : Readv)
  /-- The message callback takes `len` bytes from `inputBuffer_`. -/
  | retrieveInput (len : Nat)
  | handleClose

/-- The bytes an operation adds to the stream. -/
def SessionOp.sent : SessionOp → List Byte
  | .sendInLoop data _ => data.1
  | _ => []

def sentBytes (ops : List SessionOp) : List Byte := ops.flatMap SessionOp.sent

theorem sentBytes_snoc (ops : List SessionOp) (op : SessionOp) :
    sentBytes (ops ++ [op]) = sentBytes ops ++ op.sent := by
  simp [sentBytes]

namespace Session

/-- The connection has run one function. -/
def after (s : Session) (r : TcpConnection × List Effect) : Session :=
  ⟨r.1, s.wire ++ written r.2⟩

def exec (s : Session) : SessionOp → Except Stop Session
  | .sendInLoop data w => (s.conn.sendInLoop data.1 w).map s.after
  | .handleWrite w => (s.conn.handleWrite w).map s.after
  | .shutdownInLoop => .ok (s.after (s.conn, s.conn.shutdownInLoop))
  | .shutdown => .ok { s with conn := s.conn.shutdown.2 }
  | .handleRead r => (s.conn.handleRead r).map s.after
  | .retrieveInput len => do
    let b ← returned (s.conn.inputBuffer.retrieve len)
    .ok { s with conn := { s.conn with inputBuffer := b } }
  | .handleClose => s.conn.handleClose.map s.after

/-- What the kernel may answer, until the connection is down. -/
def Enabled (s : Session) (op : SessionOp) : Prop :=
  s.conn.state ≠ .kDisconnected ∧
  match op with
  | .sendInLoop data w => w.Fits data.1.length
  | .handleWrite w => w.Fits s.conn.outputBuffer.readableBytes
  | .handleRead (.bytes data) => data.length ≤ s.conn.inputBuffer.writableBytes + extrabufSize
  | .retrieveInput len => len ≤ s.conn.inputBuffer.readableBytes
  | _ => True

instance (s : Session) : (op : SessionOp) → Decidable (s.Enabled op)
  | .sendInLoop _ _ | .handleWrite _ | .shutdownInLoop | .shutdown | .handleRead (.error _)
  | .handleRead (.bytes _) | .retrieveInput _ | .handleClose =>
    inferInstanceAs (Decidable (_ ∧ _))

/-- No write issued by `sendInLoop` fails with `EPIPE`. -/
def NoEpipe (s : Session) : SessionOp → Prop
  | .sendInLoop _ w => s.conn.writesDirectly = true → w ≠ .error EPIPE
  | _ => True

instance (s : Session) : (op : SessionOp) → Decidable (s.NoEpipe op)
  | .sendInLoop _ w => inferInstanceAs (Decidable (_ → w ≠ .error EPIPE))
  | .handleWrite _ | .shutdownInLoop | .shutdown | .handleRead _ | .retrieveInput _
  | .handleClose => inferInstanceAs (Decidable True)

/-- The message or the input does not fit into a `vector` any more. -/
def Oversized (s : Session) : SessionOp → Prop
  | .sendInLoop data _ =>
    maxSize < s.conn.outputBuffer.readable.length + 2 * data.1.length + kCheapPrepend
  | .handleRead (.bytes data) =>
    maxSize < s.conn.inputBuffer.readable.length + 2 * data.length + kCheapPrepend
  | _ => False

structure Inv (ops : List SessionOp) (s : Session) : Prop where
  input : s.conn.inputBuffer.WF
  connecting : s.conn.state ≠ .kConnecting
  outgoing : s.conn.state ≠ .kDisconnected → s.conn.Outgoing
  stream : s.wire ++ s.conn.outputBuffer.readable = sentBytes ops

/-- A step of the output side keeps the invariant. -/
theorem Inv.sends {ops : List SessionOp} {s : Session} {op : SessionOp} (h : s.Inv ops)
    {c' : TcpConnection} {es : List Effect} (hs : Sends s.conn c' es op.sent) :
    (s.after (c', es)).Inv (ops ++ [op]) where
  input := by rw [after, hs.input]; exact h.input
  connecting := by rw [after, hs.state]; exact h.connecting
  outgoing := fun _ => hs.outgoing
  stream := by
    rw [after, List.append_assoc, hs.stream, ← List.append_assoc, h.stream, sentBytes_snoc]

/-- A step that leaves the output side alone. -/
theorem Inv.keepsOutput {ops : List SessionOp} {s : Session} {op : SessionOp} (h : s.Inv ops)
    {c' : TcpConnection} {es : List Effect} (hop : op.sent = []) (hes : written es = [])
    (hin : c'.inputBuffer.WF) (hst : c'.state ≠ .kConnecting)
    (hout : c'.outputBuffer = s.conn.outputBuffer)
    (hup : c'.state ≠ .kDisconnected → c'.Outgoing) : (s.after (c', es)).Inv (ops ++ [op]) where
  input := hin
  connecting := hst
  outgoing := hup
  stream := by
    rw [after, hes, List.append_nil, hout, h.stream, sentBytes_snoc, hop, List.append_nil]

/-- A step of the input side. -/
theorem Inv.receives {ops : List SessionOp} {s : Session} {op : SessionOp} (h : s.Inv ops)
    (hup : s.conn.state ≠ .kDisconnected) (hop : op.sent = []) {c' : TcpConnection}
    {es : List Effect} (hr : Receives s.conn c' es) : (s.after (c', es)).Inv (ops ++ [op]) :=
  h.keepsOutput hop hr.stream hr.input (hr.connecting h.connecting) hr.output
    (hr.outgoing (h.outgoing hup))

theorem handleRead_inv {ops : List SessionOp} {s : Session} (h : s.Inv ops) {r : Readv}
    (he : s.Enabled (.handleRead r)) :
    (∃ s', s.exec (.handleRead r) = .ok s' ∧ s'.Inv (ops ++ [.handleRead r])) ∨
    (s.exec (.handleRead r) = .error .lengthError ∧ s.Oversized (.handleRead r)) := by
  obtain ⟨hup, hfit⟩ := he
  cases r with
  | error e =>
    exact Or.inl ⟨_, rfl, h.keepsOutput rfl rfl h.input h.connecting rfl h.outgoing⟩
  | bytes data =>
    rcases handleRead_spec h.input h.connecting hup hfit with ⟨c', es, hx, hr⟩ | ⟨hx, hmax⟩
    · exact Or.inl ⟨_, by rw [exec, hx]; rfl, h.receives hup rfl hr⟩
    · exact Or.inr ⟨by rw [exec, hx]; rfl, hmax⟩

theorem shutdown_inv {ops : List SessionOp} {s : Session} (h : s.Inv ops)
    (hup : s.conn.state ≠ .kDisconnected) :
    ({ s with conn := s.conn.shutdown.2 } : Session).Inv (ops ++ [.shutdown]) := by
  have hout := h.outgoing hup
  have hstream : s.wire ++ s.conn.outputBuffer.readable = sentBytes (ops ++ [.shutdown]) := by
    rw [h.stream, sentBytes_snoc]
    exact (List.append_nil _).symm
  unfold TcpConnection.shutdown
  split
  · exact ⟨h.input, nofun, fun _ => ⟨hout.wf, hout.writing⟩, hstream⟩
  · exact ⟨h.input, h.connecting, h.outgoing, hstream⟩

/-- One operation keeps the invariant, or leaves the loop with `std::length_error`. -/
theorem exec_inv {ops : List SessionOp} {s : Session} {op : SessionOp} (h : s.Inv ops)
    (he : s.Enabled op) (hp : s.NoEpipe op) :
    (∃ s', s.exec op = .ok s' ∧ s'.Inv (ops ++ [op])) ∨
    (s.exec op = .error .lengthError ∧ s.Oversized op) := by
  have hup := he.1
  have hout := h.outgoing hup
  cases op with
  | sendInLoop data w =>
    rcases sendInLoop_spec hout hup data.2 he.2 hp with ⟨c', es, hx, hs⟩ | ⟨hx, hmax⟩
    · exact Or.inl ⟨_, by rw [exec, hx]; rfl, h.sends hs⟩
    · exact Or.inr ⟨by rw [exec, hx]; rfl, hmax⟩
  | handleWrite w =>
    obtain ⟨c', es, hx, hs⟩ := handleWrite_spec hout he.2
    exact Or.inl ⟨_, by rw [exec, hx]; rfl, h.sends hs⟩
  | shutdownInLoop =>
    exact Or.inl ⟨_, rfl, h.keepsOutput rfl (written_shutdownInLoop _) h.input h.connecting rfl
      h.outgoing⟩
  | shutdown => exact Or.inl ⟨_, rfl, shutdown_inv h hup⟩
  | handleRead r => exact handleRead_inv h he
  | retrieveInput len =>
    have hlen : len ≤ s.conn.inputBuffer.readable.length := by
      rw [← h.input.readableBytes_length]; exact he.2
    obtain ⟨b, hb, hwf, _⟩ := retrieve_spec h.input hlen
    left
    rw [exec, hb, returned_next, ok_bind]
    refine ⟨_, rfl, hwf, h.connecting, fun _ => ⟨hout.wf, hout.writing⟩, ?_⟩
    rw [sentBytes_snoc]
    exact h.stream.trans (List.append_nil _).symm
  | handleClose =>
    obtain ⟨c', es, hx, hr⟩ := handleClose_spec h.input h.connecting hup
    exact Or.inl ⟨_, by rw [exec, hx]; rfl, h.receives hup rfl hr⟩

end Session

/-- `connectEstablished` has run on a new connection with any configuration. -/
def Established (c : TcpConnection) : Prop :=
  ∃ fd writeComplete highWater mark es,
    connectEstablished { new fd writeComplete with
      highWaterMarkCallback := highWater
      highWaterMark := mark } = .ok (c, es)

theorem Established.state {c : TcpConnection} (h : c.Established) : c.state = .kConnected := by
  obtain ⟨fd, writeComplete, highWater, mark, es, hx⟩ := h
  rw [← (Prod.mk.inj (Except.ok.inj hx)).1]

theorem Established.inv {c : TcpConnection} (h : c.Established) : Session.Inv [] ⟨c, []⟩ := by
  obtain ⟨fd, writeComplete, highWater, mark, es, hx⟩ := h
  have hc := (Prod.mk.inj (Except.ok.inj hx)).1
  rw [← hc]
  have hidle : (new fd writeComplete).channel.enableReading.isWriting = false := by
    rw [Channel.isWriting_enableReading]
    exact (by decide : (0#32 &&& Channel.kWriteEvent != 0#32) = false)
  refine ⟨fresh_wf, nofun, fun _ => ⟨fresh_wf, fun hw => ?_, fun hne => ?_⟩, fresh_readable⟩
  · cases hidle.symm.trans hw
  · exact absurd fresh_readable hne

def session : Machine Session SessionOp Stop where
  enabled := Session.Enabled
  exec := Session.exec

instance (s : Session) (op : SessionOp) : Decidable (session.enabled s op) :=
  inferInstanceAs (Decidable (s.Enabled op))

theorem session_inv {c : TcpConnection} (hc : c.Established) {ops : List SessionOp} {s : Session}
    (h : Machine.Run (session.under Session.NoEpipe) ⟨c, []⟩ ops s) : s.Inv ops := by
  refine h.keeps_trace (I := fun ops s => s.Inv ops) ?_ hc.inv
  intro as s a s' hs he hx
  rcases Session.exec_inv hs he.1 he.2 with ⟨s₁, hx₁, hs₁⟩ | ⟨hx₁, _⟩
  · cases hx.symm.trans hx₁; exact hs₁
  · cases hx.symm.trans hx₁

/-- **Output stream.** At every moment of a run in which no write of `sendInLoop` fails with
`EPIPE`, the bytes the kernel has accepted followed by `outputBuffer_` are the data of all
`sendInLoop` calls in call order. The run can only be left by a `std::length_error`. -/
theorem session_stream {c : TcpConnection} (hc : c.Established) {ops : List SessionOp} {s : Session}
    (h : Machine.Run (session.under Session.NoEpipe) ⟨c, []⟩ ops s) :
    s.wire ++ s.conn.outputBuffer.readable = sentBytes ops ∧
    ∀ op, s.Enabled op → s.NoEpipe op →
      (∃ s', s.exec op = .ok s') ∨ (s.exec op = .error .lengthError ∧ s.Oversized op) := by
  have hinv := session_inv hc h
  refine ⟨hinv.stream, fun op he hp => ?_⟩
  rcases Session.exec_inv hinv he hp with ⟨s', hx, _⟩ | hstop
  · exact Or.inl ⟨s', hx⟩
  · exact Or.inr hstop

/-- A connection right after `connectEstablished`. -/
def sampleConn : TcpConnection :=
  { new 5 false with state := .kConnected, channel := (Channel.new 5).enableReading }

theorem sampleConn_established : sampleConn.Established :=
  ⟨5, false, false, 64 * 1024 * 1024, _, rfl⟩

/-- A message of three bytes is cut after the first, the next one waits behind it, and the socket
then takes two more bytes. -/
theorem session_stream_sample :
    ∃ s, Machine.Run (session.under Session.NoEpipe) ⟨sampleConn, []⟩
        [.sendInLoop ⟨[1, 2, 3], by decide⟩ (.count 1), .sendInLoop ⟨[4], by decide⟩ (.count 1),
          .handleWrite (.count 2), .shutdown] s ∧
      s.wire = [1, 2, 3] ∧ s.wire ++ s.conn.outputBuffer.readable = [1, 2, 3, 4] := by
  obtain ⟨s, hrun, hobs⟩ := Machine.Run.of_replay (session.under Session.NoEpipe) ⟨sampleConn, []⟩
    [.sendInLoop ⟨[1, 2, 3], by decide⟩ (.count 1), .sendInLoop ⟨[4], by decide⟩ (.count 1),
      .handleWrite (.count 2), .shutdown] Session.wire [1, 2, 3] (by decide +kernel)
  exact ⟨s, hrun, hobs, (session_stream sampleConn_established hrun).1⟩

end TcpConnection
end TinyMuduo

import TinyMuduo.Conn.Stream

/-!
# Conn.Interest

`POLLOUT` interest of an established connection over whole runs. The loop thread runs any functions
of the connection in any order, and the kernel answers every `write(2)` with any count or any
`errno`, `EPIPE` included; `sendInLoop` then drops its message.

The run invariant is `Tracks`: until the connection is down, the channel is interested in `POLLOUT`
exactly when `outputBuffer_` holds something, and it is not interested afterwards. A connection that
is down stays so. `SHUT_WR` is issued by functions that look at the interest alone, so it finds the
buffer empty.
-/

namespace TinyMuduo

theorem Channel.isWriting_disableAll (ch : Channel) : ch.disableAll.isWriting = false := by
  simp only [isWriting, disableAll, interest, Interest.apply]
  decide

namespace TcpConnection

open Buffer Result

variable {c c' : TcpConnection}

/-- What an operation does to the connection, with its effects. -/
def perform (c : TcpConnection) : SessionOp → Result
  | .sendInLoop data w => c.sendInLoop data.1 w
  | .handleWrite w => c.handleWrite w
  | .shutdownInLoop => .ok (c, c.shutdownInLoop)
  | .shutdown => .ok (c.shutdown.2, [])
  | .handleRead r => c.handleRead r
  | .retrieveInput len => do
    let b ← returned (c.inputBuffer.retrieve len)
    .ok ({ c with inputBuffer := b }, [])
  | .handleClose => c.handleClose

namespace Session

/-- What the kernel may answer, whether the connection is up or not. -/
def Answers (s : Session) : SessionOp → Prop
  | .sendInLoop data w => w.Fits data.1.length
  | .handleWrite w => w.Fits s.conn.outputBuffer.readableBytes
  | .handleRead (.bytes data) => data.length ≤ s.conn.inputBuffer.writableBytes + extrabufSize
  | .retrieveInput len => len ≤ s.conn.inputBuffer.readableBytes
  | .handleRead (.error _) | .shutdownInLoop | .shutdown | .handleClose => True

instance (s : Session) : (op : SessionOp) → Decidable (s.Answers op)
  | .sendInLoop data w => inferInstanceAs (Decidable (w.Fits data.1.length))
  | .handleWrite w => inferInstanceAs (Decidable (w.Fits s.conn.outputBuffer.readableBytes))
  | .handleRead (.bytes data) =>
    inferInstanceAs (Decidable (data.length ≤ s.conn.inputBuffer.writableBytes + extrabufSize))
  | .retrieveInput len => inferInstanceAs (Decidable (len ≤ s.conn.inputBuffer.readableBytes))
  | .handleRead (.error _) | .shutdownInLoop | .shutdown | .handleClose =>
    inferInstanceAs (Decidable True)

theorem exec_eq_perform (s : Session) (op : SessionOp) :
    s.exec op = (s.conn.perform op).map s.after := by
  have hquiet : ∀ c, s.after (c, []) = { s with conn := c } := by
    intro c
    rw [after, written, List.append_nil]
  cases op with
  | sendInLoop _ _ | handleWrite _ | shutdownInLoop | handleRead _ | handleClose => rfl
  | shutdown => exact congrArg Except.ok (hquiet _).symm
  | retrieveInput len =>
    rw [exec, perform]
    cases returned (s.conn.inputBuffer.retrieve len) with
    | error e => rfl
    | ok b => exact congrArg Except.ok (hquiet _).symm

end Session

/-! ## One step -/

structure Tracks (c : TcpConnection) : Prop where
  connecting : c.state ≠ .kConnecting
  up : c.state ≠ .kDisconnected → c.inputBuffer.WF ∧ c.Outgoing
  down : c.state = .kDisconnected → c.channel.isWriting = false

/-- A step of a connection that is up. -/
structure Tracked (c c' : TcpConnection) (es : List Effect) : Prop where
  tracks : c'.Tracks
  /-- `SHUT_WR` comes behind the last byte. -/
  shut : .shutdownWrite ∈ es → c'.outputBuffer.readable = []
  /-- The poller is told when the interest changes. -/
  told : c'.channel ≠ c.channel → .updateChannel ∈ es

theorem Tracks.sends {es : List Effect} {sent : List Byte} (h : c.Tracks)
    (hup : c.state ≠ .kDisconnected) (hs : Sends c c' es sent) : c'.Tracks where
  connecting := by rw [hs.state]; exact h.connecting
  up := fun _ => ⟨by rw [hs.input]; exact (h.up hup).1, hs.outgoing⟩
  down := fun hdown => absurd (hs.state.symm.trans hdown) hup

theorem Tracked.receives {es : List Effect} (h : c.Tracks)
    (hup : c.state ≠ .kDisconnected) (hr : Receives c c' es) : Tracked c c' es where
  tracks := by
    refine ⟨hr.connecting h.connecting,
      fun hup' => ⟨hr.input, hr.outgoing (h.up hup).2 hup'⟩, fun hdown => ?_⟩
    rcases hr.closes with ⟨hst, -⟩ | ⟨-, hch, -⟩
    · exact absurd (hst.symm.trans hdown) hup
    · rw [hch]
      exact Channel.isWriting_disableAll _
  shut := fun hmem => absurd hmem hr.quiet
  told := by
    intro hne
    rcases hr.closes with ⟨-, hch⟩ | ⟨-, -, hmem⟩
    · exact absurd hch hne
    · exact hmem

/-- A step without effects that leaves the channel alone. -/
theorem Tracked.silent (h : c'.Tracks) (hch : c'.channel = c.channel) :
    Tracked c c' [] where
  tracks := h
  shut := fun hmem => absurd hmem List.not_mem_nil
  told := fun hne => absurd hch hne

theorem Steady.told {es : List Effect} (h : Steady c c' es)
    (hne : c'.channel ≠ c.channel) : .updateChannel ∈ es := by
  rcases h.channel with ⟨hch, -⟩ | ⟨hmem, -⟩
  · exact absurd hch hne
  · exact hmem

/-- Whatever `write(2)` reports, and whatever `errno` it leaves. -/
theorem sendInLoop_tracked {data : List Byte} {w : Write} (h : c.Tracks)
    (hup : c.state ≠ .kDisconnected) (hd : data.length ≤ maxSize) (hw : w.Fits data.length) :
    (∃ c' es, c.sendInLoop data w = .ok (c', es) ∧ Tracked c c' es) ∨
    (c.sendInLoop data w = .error .lengthError ∧
      maxSize < c.outputBuffer.readable.length + 2 * data.length + kCheapPrepend) := by
  by_cases hp : c.writesDirectly = true ∧ w = .error EPIPE
  · -- the message is dropped, and the connection is as it was
    obtain ⟨hdirect, rfl⟩ := hp
    exact Or.inl ⟨c, [], sendInLoop_epipe hup hdirect, .silent h rfl⟩
  · have hnot : c.writesDirectly = true → w ≠ .error EPIPE := fun hdirect he => hp ⟨hdirect, he⟩
    rcases sendInLoop_spec (h.up hup).2 hup hd hw hnot with ⟨c', es, hx, hs⟩ | hstop
    · exact Or.inl ⟨c', es, hx, h.sends hup hs, fun hmem => absurd hmem (sendInLoop_quiet hx),
        (sendInLoop_steady hx).told⟩
    · exact Or.inr hstop

theorem handleWrite_tracked {w : Write} (h : c.Tracks)
    (hup : c.state ≠ .kDisconnected) (hw : w.Fits c.outputBuffer.readableBytes) :
    ∃ c' es, c.handleWrite w = .ok (c', es) ∧ Tracked c c' es := by
  have hout := (h.up hup).2
  obtain ⟨c', es, hx, hs⟩ := handleWrite_spec hout hw
  refine ⟨c', es, hx, h.sends hup hs, fun hmem => ?_, (handleWrite_steady hx).told⟩
  exact handleWrite_flushed hout ((handleWrite_shutdownWrite hout hw hx).1 hmem) hx

theorem shutdownInLoop_tracked (h : c.Tracks)
    (hup : c.state ≠ .kDisconnected) : Tracked c c c.shutdownInLoop := by
  refine ⟨h, fun hmem => ?_, (shutdownInLoop_steady c).told⟩
  have hidle := (shutdownWrite_mem_shutdownInLoop c).1 hmem
  by_contra hne
  cases hidle.symm.trans ((h.up hup).2.writing.2 hne)

theorem shutdown_tracks (h : c.Tracks) : c.shutdown.2.Tracks := by
  unfold shutdown
  split
  next hst =>
    have hup : c.state ≠ .kDisconnected := by
      rw [hst]
      exact fun hc => by cases hc
    obtain ⟨hin, hout⟩ := h.up hup
    refine ⟨fun hc => ?_, fun _ => ⟨hin, hout.wf, hout.writing⟩, fun hc => ?_⟩ <;> cases hc
  next => exact h

theorem shutdown_tracked (h : c.Tracks) : Tracked c c.shutdown.2 [] := by
  refine .silent (shutdown_tracks h) ?_
  unfold shutdown
  split <;> rfl

/-- One operation on a connection that is up. -/
theorem perform_tracked {s : Session} {op : SessionOp} (h : s.conn.Tracks)
    (hup : s.conn.state ≠ .kDisconnected) (ha : s.Answers op) :
    (∃ c' es, s.conn.perform op = .ok (c', es) ∧ Tracked s.conn c' es) ∨
    (s.conn.perform op = .error .lengthError ∧ s.Oversized op) := by
  obtain ⟨hin, hout⟩ := h.up hup
  cases op with
  | sendInLoop data w => exact sendInLoop_tracked h hup data.2 ha
  | handleWrite w => exact Or.inl (handleWrite_tracked h hup ha)
  | shutdownInLoop => exact Or.inl ⟨_, _, rfl, shutdownInLoop_tracked h hup⟩
  | shutdown => exact Or.inl ⟨_, _, rfl, shutdown_tracked h⟩
  | handleRead r =>
    cases r with
    | error e =>
      exact Or.inl ⟨_, _, rfl, .receives h hup ⟨hin, rfl, rfl, List.not_mem_nil, Or.inl ⟨rfl, rfl⟩⟩⟩
    | bytes data =>
      rcases handleRead_spec hin h.connecting hup ha with ⟨c', es, hx, hr⟩ | hstop
      · exact Or.inl ⟨c', es, hx, .receives h hup hr⟩
      · exact Or.inr hstop
  | retrieveInput len =>
    have hlen : len ≤ s.conn.inputBuffer.readable.length := by
      rw [← hin.readableBytes_length]
      exact ha
    obtain ⟨b, hb, hwf, _⟩ := retrieve_spec hin hlen
    left
    rw [perform, hb, returned_next, ok_bind]
    exact ⟨_, _, rfl, .receives h hup ⟨hwf, rfl, rfl, List.not_mem_nil, Or.inl ⟨rfl, rfl⟩⟩⟩
  | handleClose =>
    obtain ⟨c', es, hx, hr⟩ := handleClose_spec hin h.connecting hup
    exact Or.inl ⟨c', es, hx, .receives h hup hr⟩

/-- A steady step does not touch the interest of a connection that is down. -/
theorem Steady.down {es : List Effect} (h : Steady c c' es)
    (hdown : c.state = .kDisconnected) (hw : c.channel.isWriting = false) :
    c'.state = .kDisconnected ∧ c'.channel = c.channel := by
  refine ⟨h.state.trans hdown, ?_⟩
  rcases h.channel with ⟨hch, -⟩ | ⟨-, ⟨hup, -⟩ | ⟨htrue, -⟩⟩
  · exact hch
  · exact absurd hdown hup
  · cases hw.symm.trans htrue

/-- A connection that is down stays so. -/
theorem perform_down {op : SessionOp} {es : List Effect}
    (hdown : c.state = .kDisconnected) (hw : c.channel.isWriting = false)
    (hx : c.perform op = .ok (c', es)) : c'.state = .kDisconnected ∧ c'.channel = c.channel := by
  have hclose : ∀ b r, handleClose { c with inputBuffer := b } ≠ .ok r := by
    intro b r hr
    rw [handleClose, if_neg (by simp [hdown])] at hr
    cases hr
  cases op with
  | sendInLoop data w => exact (sendInLoop_steady hx).down hdown hw
  | handleWrite w => exact (handleWrite_steady hx).down hdown hw
  | shutdownInLoop =>
    cases hx
    exact ⟨hdown, rfl⟩
  | shutdown =>
    rw [perform, shutdown, if_neg (by simp [hdown])] at hx
    cases hx
    exact ⟨hdown, rfl⟩
  | handleRead r =>
    by_cases hr : r = .bytes []
    · -- `handleClose` asserts that the connection is up
      subst hr
      obtain ⟨b, -, hb⟩ := returned_bind_ok hx
      exact absurd hb (hclose b _)
    · exact (handleRead_steady hr hx).down hdown hw
  | retrieveInput len =>
    obtain ⟨b, -, hb⟩ := returned_bind_ok hx
    cases hb
    exact ⟨hdown, rfl⟩
  | handleClose => exact absurd hx (hclose c.inputBuffer _)

/-! ## Whole runs -/

/-- The loop thread runs anything at any time. -/
def answered : Machine Session SessionOp Stop where
  enabled := Session.Answers
  exec := Session.exec

instance (s : Session) (op : SessionOp) : Decidable (answered.enabled s op) :=
  inferInstanceAs (Decidable (s.Answers op))

theorem Established.tracks (h : c.Established) : c.Tracks where
  connecting := h.inv.connecting
  up := fun hup => ⟨h.inv.input, h.inv.outgoing hup⟩
  down := fun hdown => by cases h.state.symm.trans hdown

/-- A connection that is down has no interest in `POLLOUT`. -/
theorem Tracks.of_down (hst : c.state = .kDisconnected)
    (hw : c.channel.isWriting = false) : c.Tracks where
  connecting := by
    rw [hst]
    exact fun hc => by cases hc
  up := fun hup => absurd hst hup
  down := fun _ => hw

theorem answered_keeps : answered.Keeps fun s => s.conn.Tracks := by
  intro s op s' h ha hx
  change s.exec op = .ok s' at hx
  rw [Session.exec_eq_perform] at hx
  cases hp : s.conn.perform op with
  | error e =>
    rw [hp] at hx
    cases hx
  | ok r =>
    rw [hp] at hx
    cases hx
    by_cases hdown : s.conn.state = .kDisconnected
    · have hw := h.down hdown
      obtain ⟨hst, hch⟩ := perform_down hdown hw hp
      exact .of_down hst (by rw [Session.after, hch]; exact hw)
    · rcases perform_tracked h hdown ha with ⟨c', es, hp', ht⟩ | ⟨hp', -⟩
      · cases hp.symm.trans hp'
        exact ht.tracks
      · cases hp.symm.trans hp'

/-- **`POLLOUT` interest tracks unsent data.** In every state that an established connection reaches
and that is not `kDisconnected`, the channel is interested in `POLLOUT` if and only if
`outputBuffer_` is not empty; when the connection is down it is not interested. What runs next
returns, or throws `std::length_error`; if it issues `SHUT_WR` the buffer is empty, and if it
changes the interest it tells the poller. -/
theorem interest_iff_unsent {c : TcpConnection} (hc : c.Established) {ops : List SessionOp}
    {s : Session} (h : Machine.Run answered ⟨c, []⟩ ops s) :
    (s.conn.state = .kDisconnected → s.conn.channel.isWriting = false) ∧
    (s.conn.state ≠ .kDisconnected →
      (s.conn.channel.isWriting = true ↔ s.conn.outputBuffer.readableBytes ≠ 0) ∧
      (.shutdownWrite ∈ s.conn.shutdownInLoop → s.conn.outputBuffer.readableBytes = 0) ∧
      ∀ op, s.Answers op →
        (∃ c' es, s.conn.perform op = .ok (c', es) ∧
          (.shutdownWrite ∈ es → c'.outputBuffer.readable = []) ∧
          (c'.channel ≠ s.conn.channel → .updateChannel ∈ es)) ∨
        (s.conn.perform op = .error .lengthError ∧ s.Oversized op)) := by
  have ht : s.conn.Tracks := h.keeps answered_keeps hc.tracks
  refine ⟨ht.down, fun hup => ⟨?_, fun hmem => ?_, fun op ha => ?_⟩⟩
  · obtain ⟨-, hout⟩ := ht.up hup
    rw [hout.writing, Ne, Ne, hout.readableBytes_eq_zero]
  · exact (ht.up hup).2.readableBytes_eq_zero.2 ((shutdownInLoop_tracked ht hup).shut hmem)
  · rcases perform_tracked ht hup ha with ⟨c', es, hx, hstep⟩ | hstop
    · exact Or.inl ⟨c', es, hx, hstep.shut, hstep.told⟩
    · exact Or.inr hstop

/-- A message is dropped, the next one waits, `shutdown()` waits for it, and one byte is left. -/
theorem interest_iff_unsent_sample :
    ∃ s, Machine.Run answered ⟨sampleConn, []⟩
        [.sendInLoop ⟨[1, 2], by decide⟩ (.error EPIPE),
          .sendInLoop ⟨[3, 4, 5], by decide⟩ (.error EWOULDBLOCK), .shutdown, .shutdownInLoop,
          .handleWrite (.count 2)] s ∧
      s.conn.state = .kDisconnecting ∧ s.conn.channel.isWriting = true ∧
      s.conn.outputBuffer.readableBytes ≠ 0 := by
  obtain ⟨s, hrun, hobs⟩ := Machine.Run.of_replay answered ⟨sampleConn, []⟩
    [.sendInLoop ⟨[1, 2], by decide⟩ (.error EPIPE),
      .sendInLoop ⟨[3, 4, 5], by decide⟩ (.error EWOULDBLOCK), .shutdown, .shutdownInLoop,
      .handleWrite (.count 2)]
    (fun s => (s.conn.state, s.conn.channel.isWriting)) (.kDisconnecting, true) (by decide +kernel)
  obtain ⟨hst, hw⟩ := Prod.mk.inj hobs
  have hup : s.conn.state ≠ .kDisconnected := by
    rw [hst]
    exact fun hc => by cases hc
  exact ⟨s, hrun, hst, hw, ((interest_iff_unsent sampleConn_established hrun).2 hup).1.1 hw⟩

end TcpConnection
end TinyMuduo

import TinyMuduo.Lib.Result
import TinyMuduo.Buffer.Correct
import TinyMuduo.Conn.Model

/-!
# Conn.Correct

What `sendInLoop` and `handleWrite` do to the output side of a connection: the bytes the kernel
accepts and the bytes left in `outputBuffer_` are, in this order, what was there before followed
by what was sent. The fast path is taken only when nothing is waiting, which is what `POLLOUT`
interest says (`Outgoing.writing`).
-/

namespace TinyMuduo
namespace TcpConnection

open Buffer Result

variable {c c' : TcpConnection} {es : List Effect} {data : List Byte} {w : Write}

/-- The bytes the kernel accepts in a list of effects. -/
def written : List Effect → List Byte
  | [] => []
  | .write bytes :: es => bytes ++ written es
  | _ :: es => written es

theorem written_append (es es' : List Effect) :
    written (es ++ es') = written es ++ written es' := by
  induction es with
  | nil => rfl
  | cons e es ih => cases e <;> simp [written, ih]

theorem returned_next {α : Type} (a : α) : returned (.next a) = .ok a := rfl

theorem returned_threw {α : Type} (b : Buffer) :
    returned (.threw b : Outcome α) = .error .lengthError := rfl

/-- The kernel accepts at most what it is given. -/
def Write.Fits (len : Nat) : Write → Prop
  | .count n => n ≤ len
  | .error _ => True

instance (len : Nat) : (w : Write) → Decidable (w.Fits len)
  | .count n => inferInstanceAs (Decidable (n ≤ len))
  | .error _ => inferInstanceAs (Decidable True)

theorem Write.fits_count {n len : Nat} : (Write.count n).Fits len ↔ n ≤ len := Iff.rfl

/-- The output side of a connection that is not down. -/
structure Outgoing (c : TcpConnection) : Prop where
  wf : c.outputBuffer.WF
  writing : c.channel.isWriting = true ↔ c.outputBuffer.readable ≠ []

namespace Outgoing

theorem readableBytes_eq_zero (h : c.Outgoing) :
    c.outputBuffer.readableBytes = 0 ↔ c.outputBuffer.readable = [] := by
  rw [h.wf.readableBytes_length, List.length_eq_zero_iff]

theorem writesDirectly_iff (h : c.Outgoing) :
    c.writesDirectly = true ↔ c.outputBuffer.readable = [] := by
  have hw := h.writing
  simp only [writesDirectly, Bool.and_eq_true, Bool.not_eq_true', beq_iff_eq,
    h.readableBytes_eq_zero]
  constructor
  · exact fun hd => hd.2
  · intro he
    refine ⟨?_, he⟩
    cases hc : c.channel.isWriting with
    | false => rfl
    | true => exact absurd he (hw.1 hc)

end Outgoing

/-- A step of the output side: `c'` is up to date, and `sent` was added to the stream. -/
structure Sends (c c' : TcpConnection) (es : List Effect) (sent : List Byte) : Prop where
  outgoing : c'.Outgoing
  state : c'.state = c.state
  input : c'.inputBuffer = c.inputBuffer
  stream : written es ++ c'.outputBuffer.readable = c.outputBuffer.readable ++ sent

theorem written_crossHighWaterMark (c : TcpConnection) (oldLen remaining : Nat) :
    written (c.crossHighWaterMark oldLen remaining) = [] := by
  unfold crossHighWaterMark
  split <;> rfl

/-- The part of a message that was not written is buffered completely, or does not fit. -/
theorem bufferRest_spec {s : Sent} (h : c.Outgoing)
    (hn : s.remaining = data.length - s.nwrote) (hpos : 0 < s.remaining)
    (hd : data.length ≤ maxSize) (hw : written s.effects = data.take s.nwrote)
    (hdir : c.outputBuffer.readable = [] ∨ s.nwrote = 0) :
    (∃ c' es, c.bufferRest data s = .ok (c', es) ∧ Sends c c' es data) ∨
    (c.bufferRest data s = .error .lengthError ∧
      maxSize < c.outputBuffer.readable.length + 2 * data.length + kCheapPrepend) := by
  have hrest : (data.drop s.nwrote).take s.remaining = data.drop s.nwrote := by
    rw [hn]; exact List.take_of_length_le (by simp)
  have hfit : (data.drop s.nwrote).length ≤ maxSize := by
    rw [List.length_drop]
    exact Nat.le_trans (Nat.sub_le _ _) hd
  have hne : data.drop s.nwrote ≠ [] := by
    intro he
    have := congrArg List.length he
    simp at this; omega
  have hstream : data.take s.nwrote ++ (c.outputBuffer.readable ++ data.drop s.nwrote) =
      c.outputBuffer.readable ++ data := by
    rcases hdir with he | h0
    · rw [he, List.nil_append, List.take_append_drop, List.nil_append]
    · rw [h0]; rfl
  rw [bufferRest, hrest]
  rcases append_spec h.wf hfit with ⟨b', hb', hwf, hr⟩ | ⟨ht, hmax⟩
  · left
    have hne' : b'.readable ≠ [] := by rw [hr]; simp [hne]
    rw [hb', returned_next, ok_bind]
    by_cases hc : c.channel.isWriting = true
    · rw [if_pos hc]
      refine ⟨_, _, rfl, ⟨hwf, fun _ => hne', fun _ => hc⟩, rfl, rfl, ?_⟩
      rw [written_append, written_crossHighWaterMark, List.append_nil, hw, hr, hstream]
    · rw [if_neg hc]
      refine ⟨_, _, rfl, ⟨hwf, fun _ => hne', fun _ => Channel.isWriting_enableWriting _⟩, rfl, rfl,
        ?_⟩
      rw [written_append, written_append, written_crossHighWaterMark, hw, List.append_nil]
      simp only [written, List.append_nil, hr, hstream]
  · right
    rw [List.length_drop] at hmax
    rw [ht, returned_threw, error_bind]
    exact ⟨rfl, by omega⟩

theorem directWrite_error (hw : w ≠ .error EPIPE) : (c.directWrite data w).error = false := by
  cases w with
  | count n => rfl
  | error e =>
    have he : e ≠ EPIPE := fun he => hw (by rw [he])
    simp [directWrite, he]

theorem directWrite_spec (hd : data.length ≤ maxSize) (hw : w.Fits data.length) :
    (c.directWrite data w).remaining = data.length - (c.directWrite data w).nwrote ∧
    written (c.directWrite data w).effects = data.take (c.directWrite data w).nwrote := by
  have hlt : data.length < 2 ^ 64 := by simp only [maxSize] at hd; omega
  cases w with
  | count n =>
    have hsub : sizeSub data.length n = data.length - n := sizeSub_of_le hw hlt
    simp only [directWrite, written]
    refine ⟨hsub, ?_⟩
    split <;> simp [written]
  | error e => exact ⟨rfl, rfl⟩

/-- What is left of the message after the first part of `sendInLoop`. -/
theorem firstWrite_spec (h : c.Outgoing) (hd : data.length ≤ maxSize) (hw : w.Fits data.length)
    (hp : c.writesDirectly = true → w ≠ .error EPIPE) :
    (c.firstWrite data w).remaining = data.length - (c.firstWrite data w).nwrote ∧
    written (c.firstWrite data w).effects = data.take (c.firstWrite data w).nwrote ∧
    (c.firstWrite data w).error = false ∧
    (c.outputBuffer.readable = [] ∨ (c.firstWrite data w).nwrote = 0) := by
  unfold firstWrite
  by_cases hc : c.writesDirectly = true
  · obtain ⟨hr, he⟩ := directWrite_spec (c := c) hd hw
    rw [if_pos hc]
    exact ⟨hr, he, directWrite_error (hp hc), Or.inl (h.writesDirectly_iff.1 hc)⟩
  · rw [if_neg hc]
    exact ⟨rfl, rfl, rfl, Or.inr rfl⟩

/-- `sendInLoop` adds the whole message to the stream, unless its own write fails with `EPIPE`. -/
theorem sendInLoop_spec (h : c.Outgoing)
    (hs : c.state ≠ .kDisconnected) (hd : data.length ≤ maxSize) (hw : w.Fits data.length)
    (hp : c.writesDirectly = true → w ≠ .error EPIPE) :
    (∃ c' es, c.sendInLoop data w = .ok (c', es) ∧ Sends c c' es data) ∨
    (c.sendInLoop data w = .error .lengthError ∧
      maxSize < c.outputBuffer.readable.length + 2 * data.length + kCheapPrepend) := by
  obtain ⟨hrem, heff, herr, hdir⟩ := firstWrite_spec h hd hw hp
  rw [sendInLoop, if_neg hs, finishSend, if_pos (by omega)]
  by_cases hpos : 0 < (c.firstWrite data w).remaining
  · rw [if_pos ⟨herr, hpos⟩]
    exact bufferRest_spec h hrem hpos hd heff hdir
  · left
    rw [if_neg (fun hb => hpos hb.2)]
    have htake : data.take (c.firstWrite data w).nwrote = data :=
      List.take_of_length_le (by omega)
    refine ⟨c, _, rfl, h, rfl, rfl, ?_⟩
    rw [heff, htake]
    rcases hdir with he | h0
    · rw [he, List.append_nil, List.nil_append]
    · have hnil : data = [] := by
        rw [← htake, h0]; rfl
      rw [hnil, List.append_nil, List.nil_append]

theorem written_shutdownInLoop (c : TcpConnection) : written c.shutdownInLoop = [] := by
  unfold shutdownInLoop
  split <;> rfl

theorem afterWrite_spec (hwf : c.outputBuffer.WF) (hw : c.channel.isWriting = true) :
    Sends c c.afterWrite.1 c.afterWrite.2 [] := by
  have hrb := hwf.readableBytes_length
  unfold afterWrite
  by_cases h0 : c.outputBuffer.readableBytes = 0
  · have hnil : c.outputBuffer.readable = [] := List.length_eq_zero_iff.1 (hrb ▸ h0)
    rw [if_pos h0]
    refine ⟨⟨hwf, ?_, fun hne => absurd hnil hne⟩, rfl, rfl, ?_⟩
    · intro hc
      rw [Channel.isWriting_disableWriting] at hc
      cases hc
    · simp only [hnil, written_append, List.append_nil]
      split <;> split <;> simp [written, written_shutdownInLoop]
  · rw [if_neg h0]
    have hne : c.outputBuffer.readable ≠ [] := fun hnil => h0 (by rw [hrb, hnil]; rfl)
    exact ⟨⟨hwf, fun _ => hne, fun _ => hw⟩, rfl, rfl, by simp [written]⟩

theorem wrote_spec {n : Nat} (h : c.Outgoing)
    (hw : c.channel.isWriting = true) (hn : n ≤ c.outputBuffer.readableBytes) :
    ∃ c' es, c.wrote n = .ok (c', es) ∧ Sends c c' es [] := by
  rw [h.wf.readableBytes_length] at hn
  obtain ⟨b, hb, hwf, hr⟩ := retrieve_spec h.wf hn
  have ha := afterWrite_spec (c := { c with outputBuffer := b }) hwf hw
  rw [wrote, hb, returned_next, ok_bind]
  refine ⟨_, _, rfl, ha.outgoing, ha.state, ha.input, ?_⟩
  rw [written, List.append_assoc, ha.stream]
  simp only [hr, List.append_nil, List.take_append_drop]

/-- `handleWrite` does nothing, or the kernel takes some bytes. -/
theorem handleWrite_cases (c : TcpConnection) (w : Write) :
    (c.handleWrite w = .ok (c, []) ∧ ∀ n, w = .count n → c.channel.isWriting = true → n = 0) ∨
    ∃ n, w = .count n ∧ 0 < n ∧ c.channel.isWriting = true ∧ c.handleWrite w = c.wrote n := by
  unfold handleWrite
  by_cases hc : c.channel.isWriting = true
  · rw [if_pos hc]
    cases w with
    | count n =>
      by_cases hn : 0 < n
      · exact Or.inr ⟨n, rfl, hn, hc, if_pos hn⟩
      · refine Or.inl ⟨if_neg hn, fun m hm _ => ?_⟩
        cases hm
        omega
    | error e => exact Or.inl ⟨rfl, fun n hn => by cases hn⟩
  · rw [if_neg hc]
    exact Or.inl ⟨rfl, fun _ _ hw => absurd hw hc⟩

/-- `handleWrite` moves bytes from the front of `outputBuffer_` to the kernel. -/
theorem handleWrite_spec (h : c.Outgoing) (hw : w.Fits c.outputBuffer.readableBytes) :
    ∃ c' es, c.handleWrite w = .ok (c', es) ∧ Sends c c' es [] := by
  rcases handleWrite_cases c w with ⟨hidle, -⟩ | ⟨n, rfl, -, hc, hwrote⟩
  · exact ⟨c, [], hidle, h, rfl, rfl, by simp [written]⟩
  · rw [hwrote]
    exact wrote_spec h hc (Write.fits_count.1 hw)

/-- `sendInLoop` gives the message up when its own write fails with `EPIPE`. -/
theorem sendInLoop_epipe (hs : c.state ≠ .kDisconnected)
    (hd : c.writesDirectly = true) : c.sendInLoop data (.error EPIPE) = .ok (c, []) := by
  have hfirst : c.firstWrite data (.error EPIPE) = ⟨0, data.length, true, []⟩ := by
    rw [firstWrite, if_pos hd, directWrite]
    rfl
  rw [sendInLoop, if_neg hs, hfirst, finishSend, if_pos (Nat.le_refl _), if_neg]
  rintro ⟨herr, -⟩
  cases herr

/-! ## Receiving and closing -/

/-- A step of the input side: it leaves the output side alone, or closes the connection. -/
structure Receives (c c' : TcpConnection) (es : List Effect) : Prop where
  input : c'.inputBuffer.WF
  output : c'.outputBuffer = c.outputBuffer
  stream : written es = []
  quiet : .shutdownWrite ∉ es
  closes : c'.state = c.state ∧ c'.channel = c.channel ∨
    c'.state = .kDisconnected ∧ c'.channel = c.channel.disableAll ∧ .updateChannel ∈ es

theorem Receives.outgoing (h : Receives c c' es)
    (hout : c.Outgoing) (hup : c'.state ≠ .kDisconnected) : c'.Outgoing := by
  rcases h.closes with ⟨-, hch⟩ | ⟨hdown, -⟩
  · exact ⟨by rw [h.output]; exact hout.wf, by rw [h.output, hch]; exact hout.writing⟩
  · exact absurd hdown hup

theorem Receives.connecting (h : Receives c c' es)
    (hconn : c.state ≠ .kConnecting) : c'.state ≠ .kConnecting := by
  rcases h.closes with ⟨hst, -⟩ | ⟨hst, -⟩ <;> rw [hst]
  · exact hconn
  · exact fun hc => by cases hc

/-- The state of a connection that is up. -/
theorem up_cases (hconn : c.state ≠ .kConnecting)
    (hup : c.state ≠ .kDisconnected) : c.state = .kConnected ∨ c.state = .kDisconnecting := by
  cases hs : c.state <;> simp_all

theorem handleClose_spec (hin : c.inputBuffer.WF)
    (hconn : c.state ≠ .kConnecting) (hup : c.state ≠ .kDisconnected) :
    ∃ c' es, c.handleClose = .ok (c', es) ∧ Receives c c' es :=
  ⟨_, _, if_pos (up_cases hconn hup),
    hin, rfl, rfl, by simp, Or.inr ⟨rfl, rfl, List.mem_cons_self⟩⟩

theorem handleRead_spec (hin : c.inputBuffer.WF)
    (hconn : c.state ≠ .kConnecting) (hup : c.state ≠ .kDisconnected)
    (hfit : data.length ≤ c.inputBuffer.writableBytes + extrabufSize) :
    (∃ c' es, c.handleRead (.bytes data) = .ok (c', es) ∧ Receives c c' es) ∨
    (c.handleRead (.bytes data) = .error .lengthError ∧
      maxSize < c.inputBuffer.readable.length + 2 * data.length + kCheapPrepend) := by
  rcases readFd_spec hin hfit with ⟨b, hb, hwf, _⟩ | ⟨⟨b, hb, _⟩, hmax⟩
  · left
    rw [handleRead, hb, returned_next, ok_bind]
    cases data with
    | nil =>
      obtain ⟨c', es, hx, hr⟩ :=
        handleClose_spec (c := { c with inputBuffer := b }) hwf hconn hup
      exact ⟨c', es, hx, hr.input, hr.output, hr.stream, hr.quiet, hr.closes⟩
    | cons x xs => exact ⟨_, _, rfl, hwf, rfl, rfl, by simp, Or.inl ⟨rfl, rfl⟩⟩
  · right
    rw [handleRead, hb, returned_threw, error_bind]
    exact ⟨rfl, hmax⟩

/-! ## Which steps issue `SHUT_WR` -/

theorem returned_bind_ok {α β : Type} {o : Outcome α} {f : α → Except Stop β} {r : β}
    (h : (returned o >>= f) = .ok r) : ∃ a, o = .next a ∧ f a = .ok r := by
  cases o with
  | next a => exact ⟨a, rfl, h⟩
  | threw b | fault e => cases h

theorem shutdownWrite_mem_shutdownInLoop (c : TcpConnection) :
    .shutdownWrite ∈ c.shutdownInLoop ↔ c.channel.isWriting = false := by
  unfold shutdownInLoop
  cases c.channel.isWriting <;> simp

theorem directWrite_quiet (c : TcpConnection) (data : List Byte) (w : Write) :
    .shutdownWrite ∉ (c.directWrite data w).effects := by
  cases w with
  | count n =>
    simp only [directWrite]
    split <;> simp
  | error e => simp [directWrite]

theorem bufferRest_quiet {s : Sent}
    (hs : .shutdownWrite ∉ s.effects) (h : c.bufferRest data s = .ok (c', es)) :
    .shutdownWrite ∉ es := by
  have hcross : .shutdownWrite ∉ c.crossHighWaterMark c.outputBuffer.readableBytes s.remaining := by
    unfold crossHighWaterMark
    split <;> simp
  obtain ⟨b, _, hb⟩ := returned_bind_ok h
  split at hb <;> cases hb <;> simp [hs, hcross]

/-- What `sendInLoop` did when it has returned. -/
theorem finishSend_cases {s : Sent} (h : c.finishSend data s = .ok (c', es)) :
    c' = c ∧ es = s.effects ∨ c.bufferRest data s = .ok (c', es) := by
  unfold finishSend at h
  split at h
  · split at h
    · exact Or.inr h
    · cases h
      exact Or.inl ⟨rfl, rfl⟩
  · cases h

theorem sendInLoop_cases (h : c.sendInLoop data w = .ok (c', es)) :
    c' = c ∧ es = [] ∨
    c.state ≠ .kDisconnected ∧ c.finishSend data (c.firstWrite data w) = .ok (c', es) := by
  unfold sendInLoop at h
  split at h
  next =>
    cases h
    exact Or.inl ⟨rfl, rfl⟩
  next hst => exact Or.inr ⟨hst, h⟩

theorem sendInLoop_quiet (h : c.sendInLoop data w = .ok (c', es)) : .shutdownWrite ∉ es := by
  have hdir : .shutdownWrite ∉ (c.firstWrite data w).effects := by
    unfold firstWrite
    split
    · exact directWrite_quiet c data w
    · exact List.not_mem_nil
  rcases sendInLoop_cases h with ⟨-, rfl⟩ | ⟨-, h⟩
  · exact List.not_mem_nil
  · rcases finishSend_cases h with ⟨-, rfl⟩ | h
    · exact hdir
    · exact bufferRest_quiet hdir h

/-- The `handleWrite` that empties the buffer of a connection that is `kDisconnecting`. -/
def FlushesClosing (c : TcpConnection) (w : Write) : Prop :=
  c.channel.isWriting = true ∧ w = .count c.outputBuffer.readableBytes ∧
    c.state = .kDisconnecting

instance (c : TcpConnection) (w : Write) : Decidable (c.FlushesClosing w) :=
  inferInstanceAs (Decidable (_ ∧ _))

theorem afterWrite_shutdownWrite (c : TcpConnection) :
    .shutdownWrite ∈ c.afterWrite.2 ↔
      c.outputBuffer.readableBytes = 0 ∧ c.state = .kDisconnecting := by
  unfold afterWrite
  by_cases h0 : c.outputBuffer.readableBytes = 0
  · rw [if_pos h0]
    have hquiet : Effect.shutdownWrite ∉
        (if c.writeCompleteCallback = true then [Effect.queueInLoop .writeComplete] else []) := by
      split <;> simp
    by_cases hs : c.state = .kDisconnecting
    · have hmem := (shutdownWrite_mem_shutdownInLoop
        { c with channel := c.channel.disableWriting }).2 (Channel.isWriting_disableWriting _)
      refine ⟨fun _ => ⟨h0, hs⟩, fun _ => ?_⟩
      exact List.mem_append_right _ (by rw [if_pos hs]; exact hmem)
    · simp [hs, hquiet]
  · rw [if_neg h0]
    simp [h0]

theorem wrote_shutdownWrite {n : Nat} (h : c.Outgoing)
    (hn : n ≤ c.outputBuffer.readableBytes) (hx : c.wrote n = .ok (c', es)) :
    .shutdownWrite ∈ es ↔ n = c.outputBuffer.readableBytes ∧ c.state = .kDisconnecting := by
  have hlen := h.wf.readableBytes_length
  obtain ⟨b, hb, hwf, hr⟩ := retrieve_spec h.wf (hlen ▸ hn)
  rw [wrote, hb, returned_next, ok_bind] at hx
  cases hx
  have hleft : b.readableBytes = c.outputBuffer.readableBytes - n := by
    rw [hwf.readableBytes_length, hr, List.length_drop, hlen]
  have hzero : b.readableBytes = 0 ↔ n = c.outputBuffer.readableBytes := by omega
  rw [List.mem_cons, afterWrite_shutdownWrite, ← hzero]
  simp

theorem handleWrite_shutdownWrite (h : c.Outgoing) (hw : w.Fits c.outputBuffer.readableBytes)
    (hx : c.handleWrite w = .ok (c', es)) :
    .shutdownWrite ∈ es ↔ c.FlushesClosing w := by
  rcases handleWrite_cases c w with ⟨hidle, hnone⟩ | ⟨n, rfl, -, hc, hwrote⟩
  · cases hidle.symm.trans hx
    refine ⟨fun hmem => absurd hmem List.not_mem_nil, ?_⟩
    rintro ⟨hc, hcount, -⟩
    -- there is something to write, and nothing was taken
    have hzero := hnone _ hcount hc
    exact absurd (h.readableBytes_eq_zero.1 hzero) (h.writing.1 hc)
  · rw [wrote_shutdownWrite h hw (hwrote ▸ hx), FlushesClosing, Write.count.injEq]
    exact ⟨fun hboth => ⟨hc, hboth⟩, And.right⟩

theorem afterWrite_outputBuffer (c : TcpConnection) :
    c.afterWrite.1.outputBuffer = c.outputBuffer := by
  unfold afterWrite
  split <;> rfl

theorem handleWrite_flushed (h : c.Outgoing)
    (hf : c.FlushesClosing w) (hx : c.handleWrite w = .ok (c', es)) :
    c'.outputBuffer.readable = [] := by
  obtain ⟨hc, rfl, _⟩ := hf
  have hlen := h.wf.readableBytes_length
  have hpos : 0 < c.outputBuffer.readableBytes := by
    rw [hlen]; exact List.length_pos_of_ne_nil (h.writing.1 hc)
  obtain ⟨b, hb, _, hr⟩ := retrieve_spec h.wf (Nat.le_of_eq hlen)
  simp only [handleWrite, if_pos hc, if_pos hpos] at hx
  rw [wrote, hb, returned_next, ok_bind] at hx
  cases hx
  rw [afterWrite_outputBuffer, hr, hlen, List.drop_length]

/-! ## Which steps leave the connection up -/

/-- The effects that leave nothing to do after them. -/
def Effect.settled : Effect → Bool
  | .write _ | .queueInLoop _ | .updateChannel | .shutdownWrite | .messageCallback => true
  | .removeChannel | .connectionCallback | .closeCallback => false

/-- A step that leaves `state_` alone and changes the interest set in `kWriteEvent` at most, which
it then tells the poller. -/
structure Steady (c c' : TcpConnection) (es : List Effect) : Prop where
  state : c'.state = c.state
  settled : ∀ e ∈ es, e.settled = true
  channel : c'.channel = c.channel ∧ .updateChannel ∉ es ∨
    .updateChannel ∈ es ∧
      (c.state ≠ .kDisconnected ∧ c'.channel = c.channel.enableWriting ∨
        c.channel.isWriting = true ∧ c'.channel = c.channel.disableWriting)

theorem directWrite_settled (c : TcpConnection) (data : List Byte) (w : Write) :
    ∀ e ∈ (c.directWrite data w).effects, e.settled = true ∧ e ≠ .updateChannel := by
  cases w with
  | count n =>
    simp only [directWrite]
    split <;> simp [Effect.settled]
  | error e => simp [directWrite]

theorem crossHighWaterMark_settled (c : TcpConnection) (oldLen remaining : Nat) :
    ∀ e ∈ c.crossHighWaterMark oldLen remaining, e.settled = true ∧ e ≠ .updateChannel := by
  unfold crossHighWaterMark
  split <;> simp [Effect.settled]

theorem bufferRest_steady {s : Sent}
    (hs : ∀ e ∈ s.effects, e.settled = true ∧ e ≠ .updateChannel) (hst : c.state ≠ .kDisconnected)
    (h : c.bufferRest data s = .ok (c', es)) : Steady c c' es := by
  have hes : ∀ e ∈ s.effects ++ c.crossHighWaterMark c.outputBuffer.readableBytes s.remaining,
      e.settled = true ∧ e ≠ .updateChannel := by
    intro e he
    rcases List.mem_append.1 he with he | he
    · exact hs e he
    · exact crossHighWaterMark_settled c _ _ e he
  obtain ⟨b, _, hb⟩ := returned_bind_ok h
  split at hb
  · cases hb
    exact ⟨rfl, fun e he => (hes e he).1, Or.inl ⟨rfl, fun he => (hes _ he).2 rfl⟩⟩
  · cases hb
    refine ⟨rfl, fun e he => ?_, Or.inr ⟨by simp, Or.inl ⟨hst, rfl⟩⟩⟩
    rcases List.mem_append.1 he with he | he
    · exact (hes e he).1
    · cases List.mem_singleton.1 he; rfl

theorem finishSend_steady {s : Sent}
    (hs : ∀ e ∈ s.effects, e.settled = true ∧ e ≠ .updateChannel) (hst : c.state ≠ .kDisconnected)
    (h : c.finishSend data s = .ok (c', es)) : Steady c c' es := by
  rcases finishSend_cases h with ⟨rfl, rfl⟩ | h
  · exact ⟨rfl, fun e he => (hs e he).1, Or.inl ⟨rfl, fun he => (hs _ he).2 rfl⟩⟩
  · exact bufferRest_steady hs hst h

theorem firstWrite_settled (c : TcpConnection) (data : List Byte) (w : Write) :
    ∀ e ∈ (c.firstWrite data w).effects, e.settled = true ∧ e ≠ .updateChannel := by
  unfold firstWrite
  split
  · exact directWrite_settled c data w
  · intro e he
    cases he

theorem steady_idle (c : TcpConnection) : Steady c c [] where
  state := rfl
  settled := fun _ he => absurd he List.not_mem_nil
  channel := Or.inl ⟨rfl, List.not_mem_nil⟩

theorem sendInLoop_steady (h : c.sendInLoop data w = .ok (c', es)) : Steady c c' es := by
  rcases sendInLoop_cases h with ⟨rfl, rfl⟩ | ⟨hst, h⟩
  · exact steady_idle c'
  · exact finishSend_steady (firstWrite_settled c data w) hst h

theorem shutdownInLoop_settled (c : TcpConnection) :
    ∀ e ∈ c.shutdownInLoop, e.settled = true ∧ e ≠ .updateChannel := by
  unfold shutdownInLoop
  split <;> simp [Effect.settled]

theorem shutdownInLoop_steady (c : TcpConnection) : Steady c c c.shutdownInLoop :=
  ⟨rfl, fun e he => (shutdownInLoop_settled c e he).1,
    Or.inl ⟨rfl, fun he => (shutdownInLoop_settled c _ he).2 rfl⟩⟩

theorem afterWrite_steady (hw : c.channel.isWriting = true) :
    Steady c c.afterWrite.1 c.afterWrite.2 := by
  unfold afterWrite
  by_cases h0 : c.outputBuffer.readableBytes = 0
  · rw [if_pos h0]
    refine ⟨rfl, fun e he => ?_, Or.inr ⟨by simp, Or.inr ⟨hw, rfl⟩⟩⟩
    simp only [List.mem_append, List.mem_singleton] at he
    rcases he with (rfl | he) | he
    · rfl
    · split at he <;> simp at he
      subst he; rfl
    · split at he
      · exact (shutdownInLoop_settled _ e he).1
      · cases he
  · rw [if_neg h0]
    exact ⟨rfl, nofun, Or.inl ⟨rfl, nofun⟩⟩

theorem wrote_steady {n : Nat}
    (hw : c.channel.isWriting = true) (h : c.wrote n = .ok (c', es)) : Steady c c' es := by
  obtain ⟨b, _, hb⟩ := returned_bind_ok h
  cases hb
  have ha := afterWrite_steady (c := { c with outputBuffer := b }) hw
  refine ⟨ha.state, fun e he => ?_, ?_⟩
  · rcases List.mem_cons.1 he with rfl | he
    · rfl
    · exact ha.settled e he
  · simpa using ha.channel

theorem handleWrite_steady (h : c.handleWrite w = .ok (c', es)) : Steady c c' es := by
  rcases handleWrite_cases c w with ⟨hidle, -⟩ | ⟨n, -, -, hc, hwrote⟩
  · cases hidle.symm.trans h
    exact steady_idle c
  · exact wrote_steady hc (hwrote ▸ h)

theorem handleRead_steady {r : Buffer.Readv}
    (hr : r ≠ .bytes []) (h : c.handleRead r = .ok (c', es)) : Steady c c' es := by
  obtain ⟨b, _, hb⟩ := returned_bind_ok h
  match r, hr with
  | .error _, _ => cases hb; exact ⟨rfl, nofun, Or.inl ⟨rfl, List.not_mem_nil⟩⟩
  | .bytes (_ :: _), _ =>
    cases hb
    exact ⟨rfl, by simp [Effect.settled], Or.inl ⟨rfl, by simp⟩⟩

/-! ## How a step can stop -/

/-- The bytes are at fault: there is no room for them, or `write` has counted too many. -/
def Stop.ofBytes : Stop → Bool
  | .lengthError | .buffer _ | .assertion .sendRemaining => true
  | .assertion .establishedState | .assertion .closeState => false

theorem returned_bind_error {α β : Type} {o : Outcome α} {f : α → Except Stop β} {e : Stop}
    (h : (returned o >>= f) = .error e) : e.ofBytes = true ∨ ∃ a, f a = .error e := by
  cases o with
  | next a => exact Or.inr ⟨a, h⟩
  | threw b | fault f => cases h; exact Or.inl rfl

theorem finishSend_error {s : Sent} {e : Stop}
    (h : c.finishSend data s = .error e) : e.ofBytes = true := by
  unfold finishSend at h
  split at h
  · split at h
    · rcases returned_bind_error h with he | ⟨b, hb⟩
      · exact he
      · split at hb <;> cases hb
    · cases h
  · cases h; rfl

theorem sendInLoop_error {e : Stop} (h : c.sendInLoop data w = .error e) : e.ofBytes = true := by
  unfold sendInLoop at h
  split at h
  · cases h
  · exact finishSend_error h

theorem handleWrite_error {e : Stop} (h : c.handleWrite w = .error e) : e.ofBytes = true := by
  rcases handleWrite_cases c w with ⟨hidle, -⟩ | ⟨n, -, -, -, hwrote⟩
  · cases hidle.symm.trans h
  · rcases returned_bind_error (hwrote.symm.trans h) with he | ⟨b, hb⟩
    · exact he
    · cases hb

/-- `handleRead` can only run into the assertion of `handleClose`. -/
theorem handleRead_error {r : Buffer.Readv} {e : Stop}
    (hr : r = .bytes [] → c.state = .kConnected ∨ c.state = .kDisconnecting)
    (h : c.handleRead r = .error e) : e.ofBytes = true := by
  rcases returned_bind_error h with he | ⟨b, hb⟩
  · exact he
  · match r with
    | .error _ | .bytes (_ :: _) => cases hb
    | .bytes [] =>
      simp only [handleClose, if_pos (hr rfl)] at hb
      cases hb

end TcpConnection
end TinyMuduo

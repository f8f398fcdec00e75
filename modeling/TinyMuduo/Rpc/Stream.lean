import TinyMuduo.Codec.Correct
import TinyMuduo.Rpc.EndToEnd

/-!
# Rpc.Stream

The two ends of an RPC connection over bytes.

`codec_.send` writes the frame of a message to the connection, and the bytes reach the other end
cut into pieces of any length. There `RpcChannel::onMessage` gives each piece to `codec_.onMessage`,
which calls `onRpcMessage` for the messages it completes. `rpc_over_stream` says that this is the
system of `Rpc.Peers`, in which messages are handed over as a whole.
-/

namespace TinyMuduo

namespace ProtobufCodecLite

open Incremental

variable {M : Type} (c : ProtobufCodecLite M) (host : ByteOrder)

/-- The message fits a frame and comes back from its serialization. -/
def Encodes (m : M) : Prop :=
  c.parseFromArray (c.serialize m) = some m ∧
    c.tag.length + (c.serialize m).length + 4 ≤ kMaxMessageLen

/-- The bytes that `send` gives to the connection. -/
def encoded (m : M) : List Byte :=
  (c.fillEmptyBuffer host .fresh m).toOption.elim [] Buffer.readable

theorem encoded_wellFormed {m : M} (h : c.Encodes m) : c.WellFormed m (c.encoded host m) := by
  obtain ⟨b, hb, -, hread⟩ := c.fillEmptyBuffer_spec host m h.2
  refine ⟨c.serialize m, ?_, h.1, ?_⟩
  · rw [encoded, hb]
    exact hread
  · rw [body_length]
    exact h.2

/-- What is read from the beginning of a stream of frames is the beginning of their messages. -/
theorem reads_beginning {ms read : List M} {err : Option ErrorCode} {bs rest : List Byte}
    (hms : ∀ m ∈ ms, c.Encodes m) (hbs : bs <+: (ms.map (c.encoded host)).flatten)
    (h : Reads c.readFrame ([], none) bs (read, err) rest) :
    err = none ∧ read <+: ms ∧
      (bs = (ms.map (c.encoded host)).flatten → read = ms ∧ rest = []) := by
  have hframes : List.Forall₂ c.WellFormed ms (ms.map (c.encoded host)) := by
    rw [List.forall₂_map_right_iff, List.forall₂_same]
    exact fun m hm => c.encoded_wellFormed host (hms m hm)
  have hall := c.reads_wellFormed [] hframes
  rw [List.nil_append] at hall
  obtain ⟨more, hmore⟩ := hbs
  have hrest := h.after c.readFrame_stable (hmore.symm ▸ hall)
  -- an error would have ended the reading of the whole stream
  have herr : err = none := by
    cases err with
    | none => rfl
    | some e =>
      obtain ⟨hend, -⟩ := hrest.deterministic (.stop rfl)
      cases hend
  subst herr
  obtain ⟨read', -, hread', -⟩ := c.reads_frames hrest
  refine ⟨rfl, ⟨read', hread'.symm⟩, fun heq => ?_⟩
  obtain ⟨hend, hnil⟩ := h.deterministic (heq ▸ hall)
  cases hend
  exact ⟨rfl, hnil⟩

end ProtobufCodecLite

namespace Rpc

open Result ProtobufCodecLite Function

/-- One end: its channel, and its input buffer with what the codec has reported. -/
structure RpcEnd where
  peer : RpcPeer
  input : ProtobufCodecLite.Receiver RpcMessage

inductive EndOp where
  | peer (op : PeerOp)
  /-- A piece of the stream is read, and `RpcChannel::onMessage` called. -/
  | receive (piece : Data)

inductive StreamFault where
  | rpc (f : Rpc.Fault)
  | codec (f : ProtobufCodecLite.Fault)

variable (c : ProtobufCodecLite RpcMessage) (host : Bool → ByteOrder)
  (services : Bool → Option (String → Option Service))

def RpcEnd.init : RpcEnd where
  peer := RpcPeer.init
  input := .init

/-- The messages that the codec gave to `onRpcMessage` so far, or will when it has dealt with those
before them. -/
def RpcEnd.decoded (e : RpcEnd) : List RpcMessage := messages e.input.events

/-- What end `i` has written to the connection. -/
def wire (s : Bool → RpcEnd) (i : Bool) : List Byte :=
  ((s i).peer.channel.sent.map (c.encoded (host i))).flatten

def stream : Machine (Bool → RpcEnd) (Bool × EndOp) StreamFault where
  enabled s a :=
    match a.2 with
    | .peer op => RpcPeer.Enabled (s a.1).decoded (s a.1).peer op
    | .receive piece =>
      -- the call of `onMessage` for the piece before has returned
      (s a.1).peer.handed = (s a.1).decoded.length ∧ (s a.1).peer.channel.inHand = none ∧
      (s a.1).input.received ++ piece.val <+: wire c host s !a.1
  exec s a :=
    match a.2 with
    | .peer op => do
      let p ← (RpcPeer.exec (services a.1) (s a.1).decoded (s a.1).peer op).mapError .rpc
      .ok (update s a.1 { s a.1 with peer := p })
    | .receive piece => do
      let input ← ((s a.1).input.receive c (host a.1) piece).mapError .codec
      .ok (update s a.1 { s a.1 with input := input })

/-! ## The messages behind the bytes -/

/-- A step depends on what comes from the other end only up to the message it takes. -/
theorem exec_extends (own : Option (String → Option Service))
    {incoming incoming' : List RpcMessage} (h : incoming <+: incoming') {p : RpcPeer} {op : PeerOp}
    (he : RpcPeer.Enabled incoming p op) :
    RpcPeer.Enabled incoming' p op ∧
      RpcPeer.exec own incoming' p op = RpcPeer.exec own incoming p op := by
  cases op with
  | own op | answer j response => exact ⟨he, rfl⟩
  | hand =>
    obtain ⟨more, rfl⟩ := h
    refine ⟨⟨?_, he.2⟩, ?_⟩
    · have := he.1
      simp only [List.length_append]
      omega
    · simp only [RpcPeer.exec, List.getElem?_append_left he.1]

/-- What was sent stays sent. -/
theorem sent_extends {own : Option (String → Option Service)} {incoming : List RpcMessage}
    {p p' : RpcPeer} (h : PeerStep own incoming p p') : p.channel.sent <+: p'.channel.sent := by
  cases h with
  | send k call _ _ => exact List.prefix_append _ _
  | refused m _ _ _ _ => exact List.prefix_append _ _
  | answer j m response _ => exact List.prefix_append _ _
  | call | register | parse | run | response | accepted | ignored => exact List.prefix_refl _

/-- All messages sent so far fit a frame. -/
def AllEncode (s : Bool → RpcEnd) : Prop := ∀ i, ∀ m ∈ (s i).peer.channel.sent, c.Encodes m

/-- What was received comes from the other end, and the codec has read it. -/
structure Receives (s : Bool → RpcEnd) (i : Bool) : Prop where
  inv : (s i).input.Inv c
  received : (s i).input.received <+: wire c host s !i

variable {c host services} {s : Bool → RpcEnd}

theorem Receives.decoded {i : Bool} (h : Receives c host s i) (henc : AllEncode c s) :
    (s i).input.events = (s i).decoded.map .message ∧
    (s i).decoded <+: (s !i).peer.channel.sent ∧
    ((s i).input.received = wire c host s !i →
      (s i).decoded = (s !i).peer.channel.sent ∧ (s i).input.buf.readable = []) := by
  obtain ⟨read, err, again, hevents, hreads⟩ := h.inv.reading
  obtain ⟨rfl, hprefix, hall⟩ := c.reads_beginning (host !i) (henc !i) h.received hreads
  have hdecoded : (s i).decoded = read := by rw [RpcEnd.decoded, hevents, messages_reports]
  rw [hdecoded]
  exact ⟨by simpa [reports] using hevents, hprefix, hall⟩

/-- The state of the system in which messages are handed over as a whole. -/
def ends (s : Bool → RpcEnd) : Bool → RpcPeer := fun i => (s i).peer

theorem ends_update (i : Bool) (e : RpcEnd) :
    ends (update s i e) = update (ends s) i e.peer := by
  funext j
  by_cases hj : j = i
  · subst hj
    simp [ends]
  · simp [ends, update_of_ne hj]

/-- The end that writes makes its wire longer. -/
theorem wire_extends {i j : Bool} {p : RpcPeer} (h : (s i).peer.channel.sent <+: p.channel.sent) :
    wire c host s j <+: wire c host (update s i { s i with peer := p }) j := by
  obtain ⟨more, hmore⟩ := h
  by_cases hj : j = i
  · subst hj
    simp only [wire, update_self, ← hmore, List.map_append, List.flatten_append]
    exact List.prefix_append _ _
  · simp only [wire, update_of_ne hj]
    exact List.prefix_refl _

theorem Receives.peer {i j : Bool} (h : Receives c host s j) {p : RpcPeer}
    (hp : (s i).peer.channel.sent <+: p.channel.sent) :
    Receives c host (update s i { s i with peer := p }) j := by
  have hinput : ((update s i { s i with peer := p }) j).input = (s j).input := by
    by_cases hj : j = i
    · subst hj
      rw [update_self]
    · rw [update_of_ne hj]
  refine ⟨?_, ?_⟩
  · rw [hinput]
    exact h.inv
  · rw [hinput]
    exact h.received.trans (wire_extends hp)

theorem wire_input {i j : Bool} {input : Receiver RpcMessage} :
    wire c host (update s i { s i with input := input }) j = wire c host s j := by
  by_cases hj : j = i
  · subst hj
    simp only [wire, update_self]
  · simp only [wire, update_of_ne hj]

theorem Receives.receive {i j : Bool} (h : Receives c host s j) (hraw : c.rawCb = none)
    {piece : Data} {input : Receiver RpcMessage}
    (hx : (s i).input.receive c (host i) piece = .ok input)
    (hp : (s i).input.received ++ piece.val <+: wire c host s !i) :
    Receives c host (update s i { s i with input := input }) j := by
  refine ⟨?_, ?_⟩
  · by_cases hj : j = i
    · subst hj
      rw [update_self]
      rcases Receiver.receive_spec c (host j) hraw h.inv piece with ⟨r, hr, hinv, -⟩ | ⟨hr, -⟩
      · cases hr.symm.trans hx
        exact hinv
      · cases hr.symm.trans hx
    · rw [update_of_ne hj]
      exact h.inv
  · rw [wire_input]
    by_cases hj : j = i
    · subst hj
      rw [update_self]
      rcases Receiver.receive_spec c (host j) hraw h.inv piece with ⟨r, hr, -, hrec⟩ | ⟨hr, -⟩
      · cases hr.symm.trans hx
        rw [hrec]
        exact hp
      · cases hr.symm.trans hx
    · rw [update_of_ne hj]
      exact h.received

/-- The bytes received are those of the messages sent, and the channels behave as in `peers`. -/
structure StreamInv (c : ProtobufCodecLite RpcMessage) (host : Bool → ByteOrder)
    (services : Bool → Option (String → Option Service)) (s : Bool → RpcEnd) : Prop where
  refines : ∃ ops, (peers services).Run (fun _ => RpcPeer.init) ops (ends s)
  receives : ∀ i, Receives c host s i

/-- A step of a channel is the same step in `peers`. -/
theorem StreamInv.peer (h : StreamInv c host services s) (henc : AllEncode c s) {i : Bool}
    {op : PeerOp} {p : RpcPeer} (he : RpcPeer.Enabled (s i).decoded (s i).peer op)
    (hx : RpcPeer.exec (services i) (s i).decoded (s i).peer op = .ok p) :
    StreamInv c host services (update s i { s i with peer := p }) := by
  obtain ⟨ops, hrun⟩ := h.refines
  have hprefix := ((h.receives i).decoded henc).2.1
  obtain ⟨he', hx'⟩ := exec_extends (services i) hprefix he
  have hsent := sent_extends (peerStep_of_exec (services i) he hx)
  refine ⟨⟨ops ++ [(i, op)], ?_⟩, fun j => (h.receives j).peer hsent⟩
  rw [ends_update]
  refine hrun.snoc (a := (i, op)) he' ?_
  show (RpcPeer.exec (services i) (s !i).peer.channel.sent (s i).peer op >>= _) = _
  rw [hx', hx]
  rfl

theorem stream_keeps (hraw : c.rawCb = none) :
    (stream c host services).Keeps fun s => AllEncode c s → StreamInv c host services s := by
  rintro s ⟨i, op⟩ s' hs he hx henc'
  cases op with
  | peer op =>
    obtain ⟨p, hp, hx⟩ := bind_eq_ok hx
    have hp := mapError_eq_ok hp
    cases hx
    have hsent := sent_extends (peerStep_of_exec (services i) he hp)
    have henc : AllEncode c s := by
      intro j m hm
      refine henc' j m ?_
      by_cases hj : j = i
      · subst hj
        rw [update_self]
        exact hsent.subset hm
      · rw [update_of_ne hj]
        exact hm
    exact (hs henc).peer henc he hp
  | receive piece =>
    obtain ⟨input, hinput, hx⟩ := bind_eq_ok hx
    have hinput := mapError_eq_ok hinput
    cases hx
    have hends : ends (update s i { s i with input := input }) = ends s := by
      rw [ends_update]
      exact update_eq_self i (ends s)
    have henc : AllEncode c s := by
      intro j m hm
      exact henc' j m (by rw [show (_ : RpcEnd).peer = _ from congrFun hends j]; exact hm)
    obtain ⟨hrun, hrec⟩ := hs henc
    exact ⟨by rw [hends]; exact hrun, fun j => (hrec j).receive hraw hinput he.2.2⟩

theorem streamInv_init : StreamInv c host services fun _ => RpcEnd.init :=
  ⟨⟨[], .nil⟩, fun _ => ⟨Receiver.init_inv c, List.nil_prefix⟩⟩

/-- RPC over a byte stream, however it is cut into pieces, as long as every message fits a frame and
comes back from its serialization. The channels behave as if messages were handed over as a whole;
the codec reports no error and nothing but the messages sent, in order, and all of them once all
bytes are there. So a closure is run for the answer to its call's own request. -/
theorem rpc_over_stream (hraw : c.rawCb = none) {ops : List (Bool × EndOp)}
    (hr : (stream c host services).Run (fun _ => RpcEnd.init) ops s) (henc : AllEncode c s) :
    (∃ ops', (peers services).Run (fun _ => RpcPeer.init) ops' (ends s)) ∧
    ∀ i, (s i).input.events = (s i).decoded.map .message ∧
      (s i).decoded <+: (s !i).peer.channel.sent ∧
      ((s i).input.received = wire c host s !i →
        (s i).decoded = (s !i).peer.channel.sent ∧ (s i).input.buf.readable = []) ∧
      (Fresh (ends s) → ∀ n k, .ran n k ∈ (s i).peer.channel.log →
        ∃ call m, (s i).peer.channel.calls[k]? = some call ∧
          (s i).peer.channel.responses[n]? = some m ∧
          Answers (services !i) (s !i).peer.answered call.message m) := by
  obtain ⟨hrefines, hrec⟩ := hr.keeps (stream_keeps hraw) (fun _ => streamInv_init) henc
  refine ⟨hrefines, fun i => ?_⟩
  obtain ⟨hevents, hprefix, hall⟩ := (hrec i).decoded henc
  refine ⟨hevents, hprefix, hall, fun hfresh n k hran => ?_⟩
  obtain ⟨ops', hrun⟩ := hrefines
  exact (run_peersInv hrun hfresh).ran_answers (i := i) hfresh hran

instance (s : Bool → RpcEnd) : (a : Bool × EndOp) →
    Decidable ((stream c host services).enabled s a)
  | (_, .peer _) => inferInstanceAs (Decidable (RpcPeer.Enabled _ _ _))
  | (_, .receive _) => inferInstanceAs (Decidable (_ ∧ _ ∧ _))

def MessageType.number : MessageType → Byte
  | .REQUEST => 1
  | .RESPONSE => 2
  | .ERROR => 3

def ErrorCode.number : ErrorCode → Byte
  | .NO_ERROR => 0
  | .WRONG_PROTO => 1
  | .NO_SERVICE => 2
  | .NO_METHOD => 3
  | .INVALID_REQUEST => 4
  | .INVALID_RESPONSE => 5
  | .TIMEOUT => 6

/-- A field of protobuf with a length, of less than 128 bytes. -/
def lengthDelimited (key : Byte) (field : Option (List Byte)) : List Byte :=
  field.elim [] fun bs => [key, BitVec.ofNat 8 bs.length] ++ bs

def ascii (s : String) : List Byte := s.toList.map fun c => BitVec.ofNat 8 c.toNat

/-- `RpcMessage` as protobuf serializes it, when its fields are short. -/
def serializeShort (m : RpcMessage) : List Byte :=
  [0x08, m.type.number, 0x11] ++ ByteOrder.image 8 m.id .little ++
    lengthDelimited 0x1a (m.service.map ascii) ++ lengthDelimited 0x22 (m.method.map ascii) ++
    lengthDelimited 0x2a m.request ++ lengthDelimited 0x32 m.response ++
    m.error.elim [] fun e => [0x38, e.number]

def echoRequest : RpcMessage :=
  { type := .REQUEST, id := 1, service := some "EchoService", method := some "Echo",
    request := some [7] }

/-- RpcCodec, with the parser of protobuf for two messages. -/
def echoCodec : ProtobufCodecLite RpcMessage where
  -- "RPC0"
  tag := [0x52, 0x50, 0x43, 0x30]
  serialize := serializeShort
  parseFromArray bs := [echoRequest, reply echoRequest [7]].find? fun m => serializeShort m = bs
  adler32 := zlibAdler32
  rawCb := none
  tag_length := by simp

def requestFrame : List Byte :=
  [0x00, 0x00, 0x00, 0x29, 0x52, 0x50, 0x43, 0x30, 0x08, 0x01, 0x11, 0x01, 0x00, 0x00, 0x00, 0x00,
    0x00, 0x00, 0x00, 0x1a, 0x0b, 0x45, 0x63, 0x68, 0x6f, 0x53, 0x65, 0x72, 0x76, 0x69, 0x63, 0x65,
    0x22, 0x04, 0x45, 0x63, 0x68, 0x6f, 0x2a, 0x01, 0x07, 0x76, 0xf2, 0x07, 0x7d]

def responseFrame : List Byte :=
  [0x00, 0x00, 0x00, 0x16, 0x52, 0x50, 0x43, 0x30, 0x08, 0x02, 0x11, 0x01, 0x00, 0x00, 0x00, 0x00,
    0x00, 0x00, 0x00, 0x32, 0x01, 0x07, 0x14, 0x26, 0x01, 0x6c]

/-- The request arrives in two pieces and the response in one. -/
theorem rpc_over_stream_echo :
    ∃ ops s, (stream echoCodec (fun _ => .little) echoServices).Run (fun _ => RpcEnd.init) ops s ∧
      (s false).peer.channel.log = [.registered 0, .received 0 1 (some 0), .parsed 0 0, .ran 0 0] ∧
      ∃ ops', (peers echoServices).Run (fun _ => RpcPeer.init) ops' (ends s) := by
  obtain ⟨s, hr, hobs⟩ := Machine.Run.of_replay
    (stream echoCodec (fun _ => .little) echoServices) (fun _ => RpcEnd.init)
    [(false, .peer (.own (.callMethod "EchoService" "Echo" [7] true true))),
      (false, .peer (.own (.register 0))), (false, .peer (.own (.send 0))),
      (true, .receive ⟨requestFrame.take 3, by simp [requestFrame, maxSize]⟩),
      (true, .receive ⟨requestFrame.drop 3, by simp [requestFrame, maxSize]⟩),
      (true, .peer .hand), (true, .peer (.answer 0 [7])),
      (false, .receive ⟨responseFrame, by simp [responseFrame, maxSize]⟩),
      (false, .peer .hand), (false, .peer (.own .parse)), (false, .peer (.own .run))]
    (fun s => ((s false).peer.channel.sent, (s true).peer.channel.sent,
      (s false).peer.channel.log))
    ([echoRequest], [reply echoRequest [7]],
      [.registered 0, .received 0 1 (some 0), .parsed 0 0, .ran 0 0]) (by decide +kernel)
  simp only [Prod.mk.injEq] at hobs
  obtain ⟨hfalse, htrue, hlog⟩ := hobs
  have henc : AllEncode echoCodec s := by
    intro i m hm
    cases i with
    | false =>
      rw [hfalse, List.mem_singleton] at hm
      subst hm
      exact ⟨by decide +kernel, by decide +kernel⟩
    | true =>
      rw [htrue, List.mem_singleton] at hm
      subst hm
      exact ⟨by decide +kernel, by decide +kernel⟩
  exact ⟨_, s, hr, hlog, (rpc_over_stream rfl hr henc).1⟩

end Rpc

end TinyMuduo

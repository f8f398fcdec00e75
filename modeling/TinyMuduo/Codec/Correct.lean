import TinyMuduo.Codec.Wire

/-!
# Codec.Correct

`ProtobufCodecLite` keeps to its wire format. `fillEmptyBuffer` writes a well-formed frame
(`fillEmptyBuffer_spec`); an iteration of `onMessage` does what the verdict on the front of the
buffer says (`turn_spec`), so a call reads the buffer as `readFrame` does (`onMessage_spec`).

After an error the bad bytes stay in the buffer, and every later call reports the error again.
`Receiver.Inv` says how the reports of all calls so far come from the one reading of all that was
received.
-/

namespace TinyMuduo.ProtobufCodecLite

open Incremental Result

variable {M : Type} (c : ProtobufCodecLite M) (host : ByteOrder)

@[simp] theorem returned_next {α : Type} (a : α) : returned (.next a) = .ok a := rfl

/-! ## `fillEmptyBuffer` -/

theorem append_returns {b : Buffer} (data : List Byte) (h : b.WF)
    (hroom : b.readable.length + 2 * data.length + 8 ≤ maxSize)
    (hcheap : Buffer.kCheapPrepend ≤ b.readerIndex) :
    ∃ b', b.append data = .next b' ∧ b'.WF ∧ b'.readable = b.readable ++ data ∧
      Buffer.kCheapPrepend ≤ b'.readerIndex := by
  rcases Buffer.append_spec h (show data.length ≤ maxSize by omega) with
    ⟨b', hb', hwf, hr⟩ | ⟨_, hfull⟩
  · exact ⟨b', hb', hwf, hr, Buffer.append_cheap hb' hcheap⟩
  · simp only [Buffer.kCheapPrepend] at hfull
    omega

theorem serializeToBuffer_spec {b : Buffer} {m : M} (h : b.WF)
    (hroom : b.readable.length + 2 * (c.serialize m).length + 16 ≤ maxSize)
    (hcheap : Buffer.kCheapPrepend ≤ b.readerIndex) :
    ∃ b', c.serializeToBuffer m b = .ok (b', (c.serialize m).length) ∧ b'.WF ∧
      b'.readable = b.readable ++ c.serialize m ∧ Buffer.kCheapPrepend ≤ b'.readerIndex := by
  have hlt := h.length_lt
  have hw := h.writer_le
  have hnw : b.writerIndex + ((c.serialize m).length + 4) < 2 ^ 64 := by
    simp only [maxSize] at hroom; omega
  rcases Buffer.ensureWritableBytes_spec h (Or.inr hnw) with
    ⟨b₁, hb₁, hwf₁, hr₁, hroom₁⟩ | ⟨_, hfull, hshort⟩
  · obtain ⟨b₂, hb₂, hwf₂, hr₂⟩ := Buffer.storeAt_hasWritten hwf₁
      (show b₁.writerIndex + (c.serialize m).length ≤ b₁.buf.length by omega) (Nat.le_refl _)
    obtain ⟨hreader, hwriter, hsize⟩ := Buffer.storeAt_indices hb₂
    have hfits : (c.serialize m).length ≤ b₂.writableBytes := by
      have hlt₁ := hwf₁.length_lt
      rw [Buffer.writableBytes, sizeSub_of_le (by omega) (by omega)]
      omega
    refine ⟨_, ?_, hwf₂, by rw [hr₂, hr₁, List.take_length], ?_⟩
    · rw [serializeToBuffer, show kChecksumLen = 4 from rfl, hb₁]
      simp only [returned_next, ok_bind, hb₂, ensure_pos hfits]
    · show Buffer.kCheapPrepend ≤ b₂.readerIndex
      rw [hreader]
      exact Buffer.ensureWritableBytes_cheap hb₁ hcheap
  · simp only [Buffer.kCheapPrepend] at hshort
    omega

/-- What is written for a message is its frame. -/
theorem fillEmptyBuffer_spec (m : M)
    (hmax : c.tag.length + (c.serialize m).length + 4 ≤ kMaxMessageLen) :
    ∃ b, c.fillEmptyBuffer host .fresh m = .ok b ∧ b.WF ∧ b.readable = c.frame (c.serialize m) := by
  obtain ⟨b₀, hfresh, hwf₀, hr₀, hcheap₀⟩ : ∃ b, Buffer.fresh = b ∧ b.WF ∧ b.readable = [] ∧
      Buffer.kCheapPrepend ≤ b.readerIndex :=
    ⟨_, rfl, Buffer.fresh_wf, Buffer.fresh_readable, Nat.le_refl _⟩
  rw [hfresh]
  have hsmall : kMaxMessageLen + kMaxMessageLen + 16 ≤ maxSize := by decide
  obtain ⟨b₁, hb₁, hwf₁, hr₁, hcheap₁⟩ :=
    append_returns c.tag hwf₀ (by rw [hr₀, List.length_nil]; omega) hcheap₀
  rw [hr₀, List.nil_append] at hr₁
  obtain ⟨b₂, hb₂, hwf₂, hr₂, hcheap₂⟩ :=
    c.serializeToBuffer_spec (m := m) hwf₁ (by rw [hr₁]; omega) hcheap₁
  rw [hr₁] at hr₂
  obtain ⟨b₃, hb₃, hwf₃, hr₃, hcheap₃⟩ :=
    append_returns (be32 (c.adler32 b₂.readable)) hwf₂
      (by simp only [hr₂, List.length_append, be32_length]; omega) hcheap₂
  have hbody : b₃.readable = c.body (c.serialize m) := by rw [hr₃, hr₂, body]
  have hsize : b₃.readableBytes = c.tag.length + (c.serialize m).length + kChecksumLen := by
    rw [hwf₃.readableBytes_length, hbody, body_length, kChecksumLen]
  obtain ⟨b₄, hb₄, hwf₄, hr₄⟩ :=
    Buffer.prepend_spec hwf₃
      (show (be32 (BitVec.ofNat 32 b₃.readableBytes)).length ≤ b₃.prependableBytes by
        rw [be32_length]; exact Nat.le_trans (by decide) hcheap₃)
  refine ⟨b₄, ?_, hwf₄, by rw [hr₄, hwf₃.readableBytes_length, hbody, frame]⟩
  have hchecksum : b₂.appendInt32 host (c.adler32 b₂.readable) = .next b₃ := by
    rw [Buffer.appendInt32, Buffer.hostToNetwork32, Buffer.image_hostToNetwork _ _ _ (by decide)]
    exact hb₃
  have hlen : ByteOrder.image 4
      (Buffer.hostToNetwork32 host (BitVec.ofNat 32 b₃.readableBytes)) host =
      be32 (BitVec.ofNat 32 b₃.readableBytes) :=
    Buffer.image_hostToNetwork _ _ _ (by decide)
  have hempty : b₀.readableBytes = 0 := by rw [hwf₀.readableBytes_length, hr₀, List.length_nil]
  rw [fillEmptyBuffer, ensure_pos hempty, ok_bind, hb₁, returned_next, ok_bind, hb₂, ok_bind]
  dsimp only
  rw [hchecksum, returned_next, ok_bind, ensure_pos hsize, ok_bind, hlen, hb₄, returned_next]

/-! ## `parse` -/

theorem readAt_spec (bs more : List Byte) (off n : Nat) (h : off + n ≤ bs.length) :
    readAt (bs ++ more) bs.length off n = .ok ((bs.drop off).take n) := by
  rw [readAt, if_pos (by simp; omega), Int.toNat_natCast, Int.toNat_natCast,
    List.drop_append_of_le_length (by omega), List.take_append_of_le_length (by simp; omega)]

theorem validateChecksum_spec (bs more : List Byte) (h : 4 ≤ bs.length) :
    c.validateChecksum host (bs ++ more) bs.length =
      .ok (c.adler32 (bs.take (bs.length - 4)) = ofBe32 (bs.drop (bs.length - 4))) := by
  have hoff : (bs.length : Int) - kChecksumLen = (bs.length - 4 : Nat) := by
    simp only [kChecksumLen]; omega
  have hlen : (bs.drop (bs.length - 4)).length = 4 := by simp; omega
  have hsum : readAt (bs ++ more) bs.length (bs.length - 4 : Nat) 4 =
      .ok (bs.drop (bs.length - 4)) := by
    have := readAt_spec bs more (bs.length - 4) 4 (by omega)
    rwa [List.take_of_length_le (by omega)] at this
  have hbytes : readAt (bs ++ more) bs.length 0 (bs.length - 4 : Nat) =
      .ok (bs.take (bs.length - 4)) := readAt_spec bs more 0 _ (by omega)
  have hnet := Buffer.networkToHost_ofImage host (bs.drop (bs.length - 4)) (w := 32) (by omega)
  rw [hlen] at hnet
  rw [validateChecksum, hoff, asInt32, hsum, ok_bind, hnet, ok_bind, hbytes, ok_bind, ofBe32]

/-- No access leaves the frame. -/
theorem parse_spec (bs more : List Byte) (h : c.kMinMessageLen ≤ bs.length) :
    c.parse host (bs ++ more) bs.length = .ok (c.decodeBody bs) := by
  have hmin : c.tag.length + 4 ≤ bs.length := h
  have hdata : (bs.length : Int) - kChecksumLen - c.tag.length =
      (bs.length - 4 - c.tag.length : Nat) := by
    simp only [kChecksumLen]; omega
  have htag : readAt (bs ++ more) bs.length 0 c.tag.length = .ok (bs.take c.tag.length) :=
    readAt_spec bs more 0 _ (by omega)
  rw [parse, c.validateChecksum_spec host bs more (by omega), ok_bind, decodeBody, htag, hdata,
    readAt_spec bs more _ _ (by omega)]
  by_cases hsum : c.adler32 (bs.take (bs.length - 4)) = ofBe32 (bs.drop (bs.length - 4))
  · rw [if_pos (decide_eq_true hsum), if_pos hsum, ok_bind]
    by_cases heq : bs.take c.tag.length = c.tag
    · rw [if_pos heq, if_pos heq, ok_bind]
      generalize c.parseFromArray _ = parsed
      cases parsed <;> rfl
    · rw [if_neg heq, if_neg heq]
  · rw [if_neg (by simpa using hsum), if_neg hsum]

/-! ## `onMessage` -/

/-- An iteration does what the verdict on the front of the buffer says. -/
def Turn.Obeys (b : Buffer) : Verdict M → Turn M → Prop
  | .needMore, t => t = .stop none
  | .bad e, t => t = .stop (some e)
  | .frame m size, t => ∃ b', t = .next b' (some m) ∧ b'.WF ∧ b'.readable = b.readable.drop size

theorem turn_spec {b : Buffer} (hraw : c.rawCb = none) (h : b.WF) :
    ∃ t, c.turn host b = .ok t ∧ t.Obeys b (c.verdict b.readable) := by
  have hr := h.readableBytes_length
  rw [turn, hr, verdict]
  by_cases hmin : b.readable.length < c.kMinMessageLen + kHeaderLen
  · rw [if_neg (by omega), if_pos hmin]
    exact ⟨_, rfl, rfl⟩
  rw [if_pos (by omega), if_neg hmin, Buffer.peekInt32,
    Buffer.peekInt_spec host h (by simp only [kHeaderLen] at hmin; omega) (by decide),
    returned_next, ok_bind]
  have hfield :
      (ByteOrder.ofImage 32 (b.readable.take 4) .big).toInt = lengthField b.readable := rfl
  simp only [hfield]
  by_cases hbad : kMaxMessageLen < lengthField b.readable ∨
      lengthField b.readable < c.kMinMessageLen
  · rw [if_pos hbad, if_pos hbad]
    exact ⟨_, rfl, rfl⟩
  rw [if_neg hbad, if_neg hbad]
  obtain ⟨n, hn⟩ : ∃ n : Nat, lengthField b.readable = n :=
    ⟨(lengthField b.readable).toNat, by simp only [kMinMessageLen] at hbad; omega⟩
  rw [hn, Int.toNat_natCast]
  rw [hn] at hbad
  by_cases hall : b.readable.length < kHeaderLen + n
  · rw [if_neg (by omega), if_pos hall]
    exact ⟨_, rfl, rfl⟩
  rw [if_pos (by omega), if_neg hall, frameTurn, hraw, if_neg (by simp)]
  have hframe : ((b.readable.drop kHeaderLen).take n).length = n := by simp; omega
  have hparse := c.parse_spec host ((b.readable.drop kHeaderLen).take n)
    ((b.readable.drop kHeaderLen).drop n) (by omega)
  rw [List.take_append_drop, hframe] at hparse
  rw [hparse, ok_bind]
  cases hd : c.decodeBody ((b.readable.drop kHeaderLen).take n) with
  | error e => exact ⟨_, rfl, rfl⟩
  | ok m =>
    obtain ⟨b', hb', hwf, hread⟩ :=
      Buffer.retrieve_spec h (show kHeaderLen + n ≤ b.readable.length by omega)
    refine ⟨.next b' (some m), ?_, b', rfl, hwf, hread⟩
    simp only [show ((kHeaderLen : Int) + (n : Int)).toNat = kHeaderLen + n by omega, hb',
      returned_next, ok_bind]

theorem loop_spec (hraw : c.rawCb = none) (n : Nat) {b : Buffer} (h : b.WF)
    (hn : b.readable.length < n) :
    ∃ b' ms err, c.loop host n b = .ok (b', ms.map .message ++ err.toList.map .error) ∧ b'.WF ∧
      ∀ ms₀, Reads c.readFrame (ms₀, none) b.readable (ms₀ ++ ms, err) b'.readable := by
  induction n generalizing b with
  | zero => omega
  | succ n ih =>
    obtain ⟨t, ht, hobey⟩ := c.turn_spec host hraw h
    rw [loop, ht, ok_bind]
    cases hv : c.verdict b.readable with
    | needMore =>
      rw [hv] at hobey
      cases hobey
      refine ⟨b, [], none, rfl, h, fun ms₀ => ?_⟩
      rw [List.append_nil]
      exact .stop (c.readFrame_needMore hv)
    | bad e =>
      rw [hv] at hobey
      cases hobey
      refine ⟨b, [], some e, rfl, h, fun ms₀ => ?_⟩
      rw [List.append_nil]
      exact .step (c.readFrame_bad hv) (.stop rfl)
    | frame m size =>
      rw [hv] at hobey
      obtain ⟨b₁, rfl, hwf₁, hr₁⟩ := hobey
      obtain ⟨_, hle, hpos⟩ := c.verdict_frame hv
      obtain ⟨b', ms, err, hloop, hwf', hreads⟩ := ih hwf₁ (by rw [hr₁, List.length_drop]; omega)
      refine ⟨b', m :: ms, err, ?_, hwf', fun ms₀ => ?_⟩
      · simp only [hloop, ok_bind]
        rfl
      · refine .step (c.readFrame_frame hv) ?_
        have hrest := hreads (ms₀ ++ [m])
        rwa [hr₁, List.append_assoc, List.singleton_append] at hrest

theorem onMessage_spec {b : Buffer} (hraw : c.rawCb = none) (h : b.WF) :
    ∃ b' ms err, c.onMessage host b = .ok (b', ms.map .message ++ err.toList.map .error) ∧ b'.WF ∧
      ∀ ms₀, Reads c.readFrame (ms₀, none) b.readable (ms₀ ++ ms, err) b'.readable := by
  rw [onMessage, h.readableBytes_length]
  exact c.loop_spec host hraw _ h (Nat.lt_succ_self _)

/-! ## Whole runs -/

/-- The reports of all calls: the messages, then the error once for each call that met it. -/
def reports (ms : List M) (err : Option ErrorCode) (again : Nat) : List (Event M) :=
  ms.map .message ++ err.toList.flatMap fun e => List.replicate (again + 1) (.error e)

/-- The reports so far come from the reading of all that was received. -/
structure Receiver.Inv (s : Receiver M) : Prop where
  wf : s.buf.WF
  reading : ∃ ms err again, s.events = reports ms err again ∧
    Reads c.readFrame ([], none) s.received (ms, err) s.buf.readable

theorem Receiver.init_inv : (Receiver.init : Receiver M).Inv c where
  wf := Buffer.fresh_wf
  reading := by
    refine ⟨[], none, 0, rfl, ?_⟩
    show Reads c.readFrame ([], none) [] ([], none) Buffer.fresh.readable
    rw [Buffer.fresh_readable]
    exact .stop (c.readFrame_needMore c.verdict_nil)

/-- A piece is taken and its bytes are read, unless the vector cannot hold it. -/
theorem Receiver.receive_spec {s : Receiver M} (hraw : c.rawCb = none) (h : s.Inv c)
    (piece : Data) :
    (∃ s', s.receive c host piece = .ok s' ∧ s'.Inv c ∧ s'.received = s.received ++ piece) ∨
    (s.receive c host piece = .error .lengthError ∧
      maxSize < s.buf.readable.length + 2 * piece.val.length + Buffer.kCheapPrepend) := by
  obtain ⟨ms, err, again, hevents, hreads⟩ := h.reading
  unfold receive
  rcases Buffer.append_spec h.wf piece.property with ⟨b₁, hb₁, hwf₁, hr₁⟩ | ⟨ht, hfull⟩
  · obtain ⟨b₂, ms', err', hon, hwf₂, hmore⟩ := c.onMessage_spec host hraw hwf₁
    rw [hb₁, returned_next, ok_bind, hon, ok_bind]
    refine Or.inl ⟨_, rfl, ⟨hwf₂, ?_⟩, rfl⟩
    rw [hr₁] at hmore
    cases err with
    | none =>
      refine ⟨ms ++ ms', err', 0, ?_, hreads.resume c.readFrame_stable (hmore ms)⟩
      rw [hevents]
      cases err' <;> simp [reports]
    | some e =>
      -- the bad bytes are still at the front of the buffer
      have hbad : c.verdict (s.buf.readable ++ piece) = .bad e := by
        have hrest := c.reads_error hreads
        rw [c.verdict_append (by rw [hrest]; nofun), hrest]
      obtain ⟨hsame, hrest⟩ := (hmore []).deterministic (.step (c.readFrame_bad hbad) (.stop rfl))
      rw [List.nil_append] at hsame
      cases hsame
      refine ⟨ms, some e, again + 1, ?_, ?_⟩
      · rw [hevents]
        simp [reports, List.replicate_succ' (n := again + 1)]
      · rw [hrest]
        exact hreads.resume c.readFrame_stable (.stop rfl)
  · rw [ht]
    exact Or.inr ⟨rfl, hfull⟩

section Reports

def Event.message? : Event M → Option M
  | .message m => some m
  | .error _ => none

def Event.error? : Event M → Option ErrorCode
  | .message _ => none
  | .error e => some e

/-- The messages delivered. -/
def messages (es : List (Event M)) : List M := es.filterMap Event.message?

/-- The first error reported. -/
def firstError (es : List (Event M)) : Option ErrorCode := es.findSome? Event.error?

variable (ms : List M) (err : Option ErrorCode) (again : Nat)

theorem messages_map_message : messages (ms.map Event.message) = ms := by
  induction ms with
  | nil => rfl
  | cons m ms ih => exact congrArg (m :: ·) ih

theorem firstError_map_message (es : List (Event M)) :
    firstError (ms.map Event.message ++ es) = firstError es := by
  induction ms with
  | nil => rfl
  | cons m ms ih => exact ih

theorem messages_replicate (n : Nat) (e : ErrorCode) :
    messages (List.replicate n (.error e : Event M)) = [] := by
  induction n with
  | zero => rfl
  | succ n ih => exact ih

theorem messages_append (es es' : List (Event M)) :
    messages (es ++ es') = messages es ++ messages es' := List.filterMap_append

theorem messages_reports : messages (reports ms err again) = ms := by
  rw [reports, messages_append, messages_map_message]
  cases err with
  | none => exact List.append_nil _
  | some e => rw [Option.toList_some, List.flatMap_singleton, messages_replicate, List.append_nil]

theorem firstError_reports : firstError (reports ms err again) = err := by
  rw [reports, firstError_map_message]
  cases err with
  | none | some e => rfl

/-- What comes after an error is the same error again. -/
theorem messages_after_error {pre post : List (Event M)} {e : ErrorCode}
    (h : reports ms err again = pre ++ .error e :: post) : messages post = [] := by
  induction ms generalizing pre with
  | nil =>
    cases err with
    | none => simp [reports] at h
    | some e' =>
      have hall : ∀ x ∈ post, x = .error e' := by
        intro x hx
        have : x ∈ reports ([] : List M) (some e') again := by rw [h]; simp [hx]
        simpa [reports] using this
      rw [messages, List.filterMap_eq_nil_iff]
      intro x hx
      rw [hall x hx]
      rfl
  | cons m ms ih =>
    cases pre with
    | nil => cases h
    | cons x pre => exact ih (List.cons.inj h).2

end Reports

theorem received_eq {pieces : List Data} {s s' : Receiver M}
    (hrun : (c.receiver host).Run s pieces s') :
    s'.received = s.received ++ (pieces.map Subtype.val).flatten := by
  induction hrun with
  | nil => simp
  | cons _ hx _ ih =>
    rw [ih]
    obtain ⟨b, _, hx⟩ := bind_eq_ok hx
    obtain ⟨⟨b', events⟩, _, hx⟩ := bind_eq_ok hx
    cases hx
    simp

theorem run_inv {pieces : List Data} {s : Receiver M} (hraw : c.rawCb = none)
    (hrun : (c.receiver host).Run .init pieces s) : s.Inv c := by
  refine hrun.keeps (I := fun s : Receiver M => s.Inv c) ?_ (Receiver.init_inv c)
  intro s piece s' hinv _ hx
  rcases Receiver.receive_spec c host hraw hinv piece with ⟨s₁, hx₁, hinv₁, _⟩ | ⟨hx₁, _⟩
  · cases hx.symm.trans hx₁
    exact hinv₁
  · cases hx.symm.trans hx₁

theorem run_progress {pieces : List Data} {s : Receiver M} (hraw : c.rawCb = none)
    (hrun : (c.receiver host).Run .init pieces s) (piece : Data) :
    (∃ s', (c.receiver host).exec s piece = .ok s') ∨
    ((c.receiver host).exec s piece = .error .lengthError ∧
      maxSize < s.buf.readable.length + 2 * piece.val.length + Buffer.kCheapPrepend) := by
  rcases Receiver.receive_spec c host hraw (c.run_inv host hraw hrun) piece with
    ⟨s', hx, _, _⟩ | hfull
  · exact Or.inl ⟨s', hx⟩
  · exact Or.inr hfull

/-- Each message is written as one well-formed frame. -/
theorem fillEmptyBuffer_wellFormed (msgs : List M)
    (hparse : ∀ m ∈ msgs, c.parseFromArray (c.serialize m) = some m)
    (hmax : ∀ m ∈ msgs, c.tag.length + (c.serialize m).length + 4 ≤ kMaxMessageLen) :
    ∃ outputs : List Buffer,
      List.Forall₂ (fun m b => c.fillEmptyBuffer host .fresh m = .ok b) msgs outputs ∧
      List.Forall₂ c.WellFormed msgs (outputs.map Buffer.readable) := by
  induction msgs with
  | nil => exact ⟨[], .nil, .nil⟩
  | cons m msgs ih =>
    obtain ⟨outputs, hout, hframes⟩ := ih (fun m' hm' => hparse m' (List.mem_cons_of_mem _ hm'))
      (fun m' hm' => hmax m' (List.mem_cons_of_mem _ hm'))
    have hm := hmax m List.mem_cons_self
    obtain ⟨b, hb, _, hread⟩ := c.fillEmptyBuffer_spec host m hm
    refine ⟨b :: outputs, .cons hb hout, .cons ?_ hframes⟩
    exact ⟨_, hread, hparse m List.mem_cons_self, by rw [body_length]; exact hm⟩

/-- What the codec writes it reads back, however the bytes are cut: every message is delivered once
and in order, no error is reported, and nothing is left over. A piece can be refused only by the
vector of the input buffer. -/
theorem decodes_what_it_encodes (msgs : List M)
    (hparse : ∀ m ∈ msgs, c.parseFromArray (c.serialize m) = some m)
    (hmax : ∀ m ∈ msgs, c.tag.length + (c.serialize m).length + 4 ≤ kMaxMessageLen)
    (hraw : c.rawCb = none) :
    ∃ outputs : List Buffer,
      List.Forall₂ (fun m b => c.fillEmptyBuffer host .fresh m = .ok b) msgs outputs ∧
      ∀ (pieces : List Data) (s : Receiver M), (c.receiver host).Run .init pieces s →
        ((pieces.map Subtype.val).flatten = (outputs.map Buffer.readable).flatten →
          s.events = msgs.map .message ∧ s.buf.readable = []) ∧
        ∀ piece, (∃ s', (c.receiver host).exec s piece = .ok s') ∨
          ((c.receiver host).exec s piece = .error .lengthError ∧
            maxSize < s.buf.readable.length + 2 * piece.val.length + Buffer.kCheapPrepend) := by
  obtain ⟨outputs, hout, hframes⟩ := c.fillEmptyBuffer_wellFormed host msgs hparse hmax
  refine ⟨outputs, hout, fun pieces s hrun => ⟨fun hcut => ?_, c.run_progress host hraw hrun⟩⟩
  obtain ⟨ms, err, again, hevents, hreads⟩ := (c.run_inv host hraw hrun).reading
  have hstream : s.received = (outputs.map Buffer.readable).flatten :=
    (c.received_eq host hrun).trans hcut
  rw [hstream] at hreads
  obtain ⟨hms, hrest⟩ := hreads.deterministic (c.reads_wellFormed [] hframes)
  cases hms
  exact ⟨by simpa [reports] using hevents, hrest⟩

/-- `adler32(1, ...)` of zlib. -/
def zlibAdler32 (bs : List Byte) : BitVec 32 :=
  let (a, b) := bs.foldl (fun (a, b) x => ((a + x.toNat) % 65521, (b + a + x.toNat) % 65521)) (1, 0)
  BitVec.ofNat 32 (b * 65536 + a)

/-- A `SudokuRequest`: one string field, here of less than 128 bytes. -/
def requestCodec : ProtobufCodecLite (List Byte) where
  tag := [0x52]
  serialize checkerboard := [0x0a, BitVec.ofNat 8 checkerboard.length] ++ checkerboard
  parseFromArray
    | 0x0a#8 :: length :: checkerboard =>
      if length.toNat = checkerboard.length ∧ length.toNat < 128 then some checkerboard else none
    | _ => none
  adler32 := zlibAdler32
  rawCb := none
  tag_length := by decide

theorem decodes_what_it_encodes_sample :
    ∃ outputs : List Buffer,
      List.Forall₂ (fun m b => requestCodec.fillEmptyBuffer .little .fresh m = .ok b)
        [[1, 2], []] outputs ∧
      ∀ (pieces : List Data) (s : Receiver (List Byte)),
        (requestCodec.receiver .little).Run .init pieces s →
        ((pieces.map Subtype.val).flatten = (outputs.map Buffer.readable).flatten →
          s.events = [.message [1, 2], .message []] ∧ s.buf.readable = []) ∧
        ∀ piece, (∃ s', (requestCodec.receiver .little).exec s piece = .ok s') ∨
          ((requestCodec.receiver .little).exec s piece = .error .lengthError ∧
            maxSize < s.buf.readable.length + 2 * piece.val.length + Buffer.kCheapPrepend) :=
  requestCodec.decodes_what_it_encodes .little [[1, 2], []] (by decide) (by decide) rfl

/-- On any stream the messages and the first error do not depend on how it is cut: they are those
of its longest prefix of well-formed frames and of the bytes behind it. Nothing is delivered after
an error; and whatever comes next, the call of `onMessage` returns without a fault. -/
theorem onMessage_any_stream {pieces pieces' : List Data} {s s' : Receiver M}
    (hraw : c.rawCb = none) (hrun : (c.receiver host).Run .init pieces s)
    (hrun' : (c.receiver host).Run .init pieces' s')
    (hsame : (pieces.map Subtype.val).flatten = (pieces'.map Subtype.val).flatten) :
    messages s.events = messages s'.events ∧ firstError s.events = firstError s'.events ∧
    (∃ frames rest, (pieces.map Subtype.val).flatten = frames.flatten ++ rest ∧
      List.Forall₂ c.WellFormed (messages s.events) frames ∧
      (∀ m f, c.WellFormed m f → ¬ f <+: rest) ∧
      firstError s.events = (c.verdict rest).error) ∧
    (∀ pre e post, s.events = pre ++ .error e :: post → messages post = []) ∧
    ∀ piece, (∃ s'', (c.receiver host).exec s piece = .ok s'') ∨
      ((c.receiver host).exec s piece = .error .lengthError ∧
        maxSize < s.buf.readable.length + 2 * piece.val.length + Buffer.kCheapPrepend) := by
  obtain ⟨ms, err, again, hevents, hreads⟩ := (c.run_inv host hraw hrun).reading
  obtain ⟨ms', err', again', hevents', hreads'⟩ := (c.run_inv host hraw hrun').reading
  have hstream : s.received = (pieces.map Subtype.val).flatten := c.received_eq host hrun
  have hstream' : s'.received = (pieces'.map Subtype.val).flatten := c.received_eq host hrun'
  -- both runs read the same stream, and a stream has one reading
  rw [hstream', ← hsame, ← hstream] at hreads'
  obtain ⟨hone, _⟩ := hreads.deterministic hreads'
  cases hone
  obtain ⟨read, frames, hread, hcut, hframes, herr, hlong⟩ := c.reads_frames hreads
  rw [List.nil_append] at hread
  subst hread
  refine ⟨?_, ?_, ⟨frames, s.buf.readable, hstream ▸ hcut, ?_, hlong, ?_⟩, ?_,
    c.run_progress host hraw hrun⟩
  · rw [hevents, hevents', messages_reports, messages_reports]
  · rw [hevents, hevents', firstError_reports, firstError_reports]
  · rw [hevents, messages_reports]
    exact hframes
  · rw [hevents, firstError_reports]
    exact herr
  · intro pre e post h
    exact messages_after_error ms err again (hevents ▸ h)

instance (s : Receiver M) (piece : Data) : Decidable ((c.receiver host).enabled s piece) :=
  inferInstanceAs (Decidable True)

/-- A frame, a bad length and more bytes, cut inside the frame or not at all. -/
theorem onMessage_any_stream_sample :
    ∃ s s', (requestCodec.receiver .little).Run .init
        [⟨[0, 0, 0], by decide⟩,
          ⟨[8, 0x52, 0x0a, 1, 7, 0x01, 0x73, 0x00, 0x65, 0xff, 0xff, 0xff, 0xff, 1], by decide⟩,
          ⟨[2, 3, 4, 5], by decide⟩] s ∧
      (requestCodec.receiver .little).Run .init
        [⟨[0, 0, 0, 8, 0x52, 0x0a, 1, 7, 0x01, 0x73, 0x00, 0x65, 0xff, 0xff, 0xff, 0xff, 1, 2, 3, 4,
          5], by decide⟩] s' ∧
      messages s.events = messages s'.events ∧ firstError s.events = firstError s'.events ∧
      s.events = [.message [7], .error .kInvalidLength] := by
  obtain ⟨s, hrun, hs⟩ := Machine.Run.of_replay (requestCodec.receiver .little) .init
    [⟨[0, 0, 0], by decide⟩,
      ⟨[8, 0x52, 0x0a, 1, 7, 0x01, 0x73, 0x00, 0x65, 0xff, 0xff, 0xff, 0xff, 1], by decide⟩,
      ⟨[2, 3, 4, 5], by decide⟩] Receiver.events [.message [7], .error .kInvalidLength]
    (by decide +kernel)
  obtain ⟨s', hrun', _⟩ := Machine.Run.of_replay (requestCodec.receiver .little) .init
    [⟨[0, 0, 0, 8, 0x52, 0x0a, 1, 7, 0x01, 0x73, 0x00, 0x65, 0xff, 0xff, 0xff, 0xff, 1, 2, 3, 4, 5],
      by decide⟩]
    Receiver.events [.message [7], .error .kInvalidLength] (by decide +kernel)
  obtain ⟨hms, herr, _⟩ := requestCodec.onMessage_any_stream .little rfl hrun hrun' rfl
  exact ⟨s, s', hrun, hrun', hms, herr, hs⟩

end TinyMuduo.ProtobufCodecLite

import TinyMuduo.Codec.Model
import TinyMuduo.Lib.Incremental

/-!
# Codec.Wire

The wire format of `ProtobufCodecLite` on byte strings: what a frame is (`frame`, `WellFormed`), and
what can be said of the front of a stream (`verdict`): a frame is there, or the stream is bad, or
more bytes are needed. `readFrame` is the reader this gives; it is stable, so a stream has one
reading however it is cut.
-/

namespace TinyMuduo.ProtobufCodecLite

open Incremental

variable {M : Type} (c : ProtobufCodecLite M)

/-- The image of `x` on the wire. -/
def be32 (x : BitVec 32) : List Byte := ByteOrder.image 4 x .big

/-- The integer on the wire. -/
def ofBe32 (bs : List Byte) : BitVec 32 := ByteOrder.ofImage 32 bs .big

@[simp] theorem be32_length (x : BitVec 32) : (be32 x).length = 4 := ByteOrder.image_length _ _ _

@[simp] theorem ofBe32_be32 (x : BitVec 32) : ofBe32 (be32 x) = x :=
  ByteOrder.ofImage_image 4 x (by decide) .big

theorem be32_ofBe32 {bs : List Byte} (h : bs.length = 4) : be32 (ofBe32 bs) = bs := by
  have := ByteOrder.image_ofImage (w := 32) bs (by omega) .big
  rwa [h] at this

/-- Tag, payload and checksum. -/
def body (payload : List Byte) : List Byte :=
  c.tag ++ payload ++ be32 (c.adler32 (c.tag ++ payload))

def frame (payload : List Byte) : List Byte :=
  be32 (BitVec.ofNat 32 (c.body payload).length) ++ c.body payload

/-- `f` is a frame of the message `m`. -/
def WellFormed (m : M) (f : List Byte) : Prop :=
  ∃ payload, f = c.frame payload ∧ c.parseFromArray payload = some m ∧
    (c.body payload).length ≤ kMaxMessageLen

theorem body_length (payload : List Byte) :
    (c.body payload).length = c.tag.length + payload.length + 4 := by
  simp [body, Nat.add_assoc]

theorem frame_length (payload : List Byte) :
    (c.frame payload).length = 4 + (c.body payload).length := by
  simp [frame]

/-! ## The body of a frame -/

def decodeBody (bs : List Byte) : Except ErrorCode M :=
  if c.adler32 (bs.take (bs.length - 4)) = ofBe32 (bs.drop (bs.length - 4)) then
    if bs.take c.tag.length = c.tag then
      match c.parseFromArray ((bs.drop c.tag.length).take (bs.length - 4 - c.tag.length)) with
      | some m => .ok m
      | none => .error .kParseError
    else .error .kUnknownMessageType
  else .error .kCheckSumError

theorem decodeBody_body (payload : List Byte) :
    c.decodeBody (c.body payload) =
      match c.parseFromArray payload with
      | some m => .ok m
      | none => .error .kParseError := by
  have hlen := c.body_length payload
  have hn : (c.body payload).length - 4 = (c.tag ++ payload).length := by simp [hlen]
  have htake : (c.body payload).take (c.tag ++ payload).length = c.tag ++ payload :=
    List.take_left
  have hdrop : (c.body payload).drop (c.tag ++ payload).length =
      be32 (c.adler32 (c.tag ++ payload)) := List.drop_left
  have htag : (c.body payload).take c.tag.length = c.tag := by
    rw [body, List.append_assoc, List.take_left]
  have hpayload : ((c.body payload).drop c.tag.length).take
      ((c.tag ++ payload).length - c.tag.length) = payload := by
    rw [body, List.append_assoc, List.drop_left, List.length_append, Nat.add_sub_cancel_left,
      List.take_left]
  rw [decodeBody, hn, htake, hdrop, ofBe32_be32, if_pos rfl, if_pos htag, hpayload]

/-- Only a tag, a payload that parses and the right checksum give a message. -/
theorem decodeBody_ok {bs : List Byte} {m : M} (h : c.decodeBody bs = .ok m)
    (hmin : c.kMinMessageLen ≤ bs.length) :
    ∃ payload, bs = c.body payload ∧ c.parseFromArray payload = some m := by
  have hmin' : c.tag.length + 4 ≤ bs.length := hmin
  unfold decodeBody at h
  split at h
  next hsum =>
    split at h
    next htag =>
      split at h
      next m' hparse =>
        cases h
        refine ⟨_, ?_, hparse⟩
        have hfront : c.tag ++ (bs.drop c.tag.length).take (bs.length - 4 - c.tag.length) =
            bs.take (bs.length - 4) := by
          rw [show bs.length - 4 = c.tag.length + (bs.length - 4 - c.tag.length) by omega,
            List.take_add, htag]
          rw [show c.tag.length + (bs.length - 4 - c.tag.length) - c.tag.length =
            bs.length - 4 - c.tag.length by omega]
        rw [body, hfront, hsum, be32_ofBe32 (by simp; omega), List.take_append_drop]
      next => cases h
    next => cases h
  next => cases h

/-! ## The front of a stream -/

inductive Verdict (M : Type) where
  | needMore
  | bad (e : ErrorCode)
  /-- a message, in a frame of `size` bytes -/
  | frame (m : M) (size : Nat)

def Verdict.error : Verdict M → Option ErrorCode
  | .bad e => some e
  | _ => none

/-- The length field. -/
def lengthField (bs : List Byte) : Int := (ofBe32 (bs.take 4)).toInt

def verdict (bs : List Byte) : Verdict M :=
  if bs.length < c.kMinMessageLen + kHeaderLen then .needMore
  else if kMaxMessageLen < lengthField bs ∨ lengthField bs < c.kMinMessageLen then
    .bad .kInvalidLength
  else if bs.length < kHeaderLen + (lengthField bs).toNat then .needMore
  else
    match c.decodeBody ((bs.drop kHeaderLen).take (lengthField bs).toNat) with
    | .ok m => .frame m (kHeaderLen + (lengthField bs).toNat)
    | .error e => .bad e

theorem lengthField_append {bs : List Byte} (h : 4 ≤ bs.length) (more : List Byte) :
    lengthField (bs ++ more) = lengthField bs := by
  rw [lengthField, List.take_append_of_le_length h, lengthField]

/-- Once something is said of the front of a stream, later bytes do not change it. -/
theorem verdict_append {bs : List Byte} (h : c.verdict bs ≠ .needMore) (more : List Byte) :
    c.verdict (bs ++ more) = c.verdict bs := by
  unfold verdict at h ⊢
  split at h
  · exact absurd rfl h
  next hlen =>
    have h4 : 4 ≤ bs.length := by simp only [kHeaderLen] at hlen; omega
    rw [lengthField_append h4, if_neg (by simp; omega), if_neg hlen]
    split at h
    · next hbad => rw [if_pos hbad, if_pos hbad]
    next hbad =>
      rw [if_neg hbad, if_neg hbad]
      split at h
      · exact absurd rfl h
      next hall =>
        rw [if_neg (by simp; omega), if_neg hall,
          List.drop_append_of_le_length (by simp only [kHeaderLen]; omega),
          List.take_append_of_le_length (by simp; omega)]

theorem verdict_frame {bs : List Byte} {m : M} {size : Nat} (h : c.verdict bs = .frame m size) :
    c.WellFormed m (bs.take size) ∧ size ≤ bs.length ∧ 0 < size := by
  unfold verdict at h
  split at h
  · cases h
  next hlen =>
    split at h
    · cases h
    next hbad =>
      split at h
      · cases h
      next hall =>
        split at h
        next m' hok =>
          cases h
          obtain ⟨n, hn⟩ : ∃ n : Nat, lengthField bs = n :=
            ⟨(lengthField bs).toNat, by simp only [kMinMessageLen] at hbad; omega⟩
          rw [hn] at hbad hall hok ⊢
          simp only [Int.toNat_natCast, kHeaderLen] at hbad hall hok hlen ⊢
          have hbody : ((bs.drop 4).take n).length = n := by simp; omega
          obtain ⟨payload, hpay, hparse⟩ := c.decodeBody_ok hok (by omega)
          refine ⟨⟨payload, ?_, hparse, by rw [← hpay]; omega⟩, by omega, by omega⟩
          have hfield : ofBe32 (bs.take 4) = BitVec.ofNat 32 n := by
            apply BitVec.eq_of_toInt_eq
            have hmax : n ≤ kMaxMessageLen := by omega
            simp only [kMaxMessageLen] at hmax
            rw [show (ofBe32 (bs.take 4)).toInt = n from hn, BitVec.toInt_ofNat']
            exact (Int.bmod_eq_of_le (by omega) (by omega)).symm
          rw [frame, ← hpay, hbody, ← hfield, be32_ofBe32 (by simp; omega), ← List.take_add]
        next => cases h

theorem verdict_wellFormed {m : M} {f : List Byte} (h : c.WellFormed m f) (more : List Byte) :
    c.verdict (f ++ more) = .frame m f.length := by
  obtain ⟨payload, rfl, hparse, hmax⟩ := h
  have hlen := c.frame_length payload
  have hbody := c.body_length payload
  have hfield : lengthField (c.frame payload ++ more) = (c.body payload).length := by
    rw [lengthField_append (by omega), lengthField, frame, List.take_left' (by simp), ofBe32_be32,
      BitVec.toInt_ofNat']
    simp only [kMaxMessageLen] at hmax
    exact Int.bmod_eq_of_le (by omega) (by omega)
  have hdrop : ((c.frame payload ++ more).drop 4).take (c.body payload).length =
      c.body payload := by
    rw [frame, List.append_assoc, List.drop_left' (by simp), List.take_left]
  unfold verdict
  simp only [hfield, kMinMessageLen, kHeaderLen, kChecksumLen, Int.toNat_natCast, hdrop,
    decodeBody_body, hparse, hlen]
  rw [if_neg (by simp; omega), if_neg (by omega), if_neg (by simp; omega)]

/-! ## Reading a stream -/

/-- The messages so far, and the error that ended the reading. -/
def readFrame : List M × Option ErrorCode → List Byte →
    Option ((List M × Option ErrorCode) × List Byte)
  | (_, some _), _ => none
  | (ms, none), bs =>
    match c.verdict bs with
    | .needMore => none
    | .bad e => some ((ms, some e), bs)
    | .frame m size => some ((ms ++ [m], none), bs.drop size)

section

variable {ms : List M} {bs : List Byte}

theorem readFrame_needMore (hv : c.verdict bs = .needMore) : c.readFrame (ms, none) bs = none := by
  rw [readFrame, hv]

theorem readFrame_bad {e : ErrorCode} (hv : c.verdict bs = .bad e) :
    c.readFrame (ms, none) bs = some ((ms, some e), bs) := by
  rw [readFrame, hv]

theorem readFrame_frame {m : M} {size : Nat} (hv : c.verdict bs = .frame m size) :
    c.readFrame (ms, none) bs = some ((ms ++ [m], none), bs.drop size) := by
  rw [readFrame, hv]

theorem verdict_nil : c.verdict [] = .needMore :=
  if_pos (by simp [kMinMessageLen, kHeaderLen])

end

theorem readFrame_stable : Stable c.readFrame := by
  rintro ⟨ms, _ | e⟩ bs s' rest more h
  · have hlater : c.verdict bs ≠ .needMore → ∀ more, c.verdict (bs ++ more) = c.verdict bs :=
      c.verdict_append
    cases hv : c.verdict bs with
    | needMore => rw [c.readFrame_needMore hv] at h; cases h
    | bad e =>
      rw [c.readFrame_bad hv] at h
      cases h
      exact c.readFrame_bad ((hlater (by rw [hv]; nofun) more).trans hv)
    | frame m size =>
      rw [c.readFrame_frame hv] at h
      cases h
      rw [c.readFrame_frame ((hlater (by rw [hv]; nofun) more).trans hv),
        List.drop_append_of_le_length (c.verdict_frame hv).2.1]
  · cases h

theorem not_wellFormed_prefix {rest : List Byte} (hv : ∀ m size, c.verdict rest ≠ .frame m size)
    (m : M) (f : List Byte) (hf : c.WellFormed m f) : ¬ f <+: rest := by
  rintro ⟨more, rfl⟩
  exact hv m f.length (c.verdict_wellFormed hf more)

/-- The messages of a reading are those of the longest prefix of well-formed frames, and its error
is what is to be said of the rest. -/
theorem reads_frames {ms ms' : List M} {err : Option ErrorCode} {bs rest : List Byte}
    (h : Reads c.readFrame (ms, none) bs (ms', err) rest) :
    ∃ read frames, ms' = ms ++ read ∧ bs = frames.flatten ++ rest ∧
      List.Forall₂ c.WellFormed read frames ∧ err = (c.verdict rest).error ∧
      ∀ m f, c.WellFormed m f → ¬ f <+: rest := by
  generalize hs : (ms, (none : Option ErrorCode)) = s at h
  generalize hs' : (ms', err) = s' at h
  induction h generalizing ms with
  | @stop s bs hstop =>
    subst hs
    cases hs'
    cases hv : c.verdict bs with
    | needMore =>
      exact ⟨[], [], by simp, by simp, .nil, rfl, c.not_wellFormed_prefix (by rw [hv]; nofun)⟩
    | bad e => rw [c.readFrame_bad hv] at hstop; cases hstop
    | frame m size => rw [c.readFrame_frame hv] at hstop; cases hstop
  | @step s s₁ s₂ bs bs₁ rest hstep hreads ih =>
    subst hs hs'
    cases hv : c.verdict bs with
    | needMore => rw [c.readFrame_needMore hv] at hstep; cases hstep
    | bad e =>
      -- the error is final, and the stream stays as it is
      rw [c.readFrame_bad hv] at hstep
      cases hstep
      obtain ⟨hs', rfl⟩ := hreads.deterministic (.stop rfl)
      cases hs'
      exact ⟨[], [], by simp, by simp, .nil, by rw [hv]; rfl,
        c.not_wellFormed_prefix (by rw [hv]; nofun)⟩
    | frame m size =>
      rw [c.readFrame_frame hv] at hstep
      cases hstep
      obtain ⟨read, frames, rfl, hbs, hall, herr, hlong⟩ := ih rfl rfl
      refine ⟨m :: read, bs.take size :: frames, by simp, ?_, .cons (c.verdict_frame hv).1 hall,
        herr, hlong⟩
      rw [List.flatten_cons, List.append_assoc, ← hbs, List.take_append_drop]

/-- A stream of well-formed frames is read to its end. -/
theorem reads_wellFormed {ms : List M} {frames : List (List Byte)} (ms₀ : List M)
    (h : List.Forall₂ c.WellFormed ms frames) :
    Reads c.readFrame (ms₀, none) frames.flatten (ms₀ ++ ms, none) [] := by
  induction h generalizing ms₀ with
  | nil =>
    rw [List.append_nil]
    exact .stop (c.readFrame_needMore c.verdict_nil)
  | @cons m f ms frames hf _ ih =>
    have hrest := ih (ms₀ ++ [m])
    rw [List.append_assoc, List.singleton_append] at hrest
    refine .step (c.readFrame_frame (c.verdict_wellFormed hf _)) ?_
    rwa [List.flatten_cons, List.drop_left]

/-- What ended the reading is still to be said of the rest. -/
theorem reads_error {ms ms' : List M} {e : ErrorCode} {bs rest : List Byte}
    (h : Reads c.readFrame (ms, none) bs (ms', some e) rest) : c.verdict rest = .bad e := by
  obtain ⟨_, _, _, _, _, herr, _⟩ := c.reads_frames h
  cases hv : c.verdict rest with
  | needMore => rw [hv] at herr; cases herr
  | bad e' => rw [hv] at herr; cases herr; rfl
  | frame m size => rw [hv] at herr; cases herr

end TinyMuduo.ProtobufCodecLite

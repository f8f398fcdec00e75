import TinyMuduo.Buffer.Correct
import TinyMuduo.Lib.Machine
import TinyMuduo.Lib.Result

/-!
# Buffer.Ints

Integers of three widths in network byte order: `appendIntN`, `prependIntN`, `peekIntN` and
`readIntN`. A value passes through the unsigned helpers of `Endian.h` as its bits, so that the bytes
in the buffer are the two's complement representation of the signed value, most significant first
(`encode`), whatever the byte order of the host is.

`IntStream` is a buffer with some content of its own, to which integers are appended while others
are read, in any interleaving. It keeps which values have not been read yet, to know the type of
the next one.
-/

namespace TinyMuduo

open Result ByteOrder

inductive IntType where
  | int8
  | int16
  | int32
  deriving DecidableEq, Repr

inductive TypedInt where
  | int8 (x : BitVec 8)
  | int16 (x : BitVec 16)
  | int32 (x : BitVec 32)
  deriving DecidableEq, Repr

namespace TypedInt

def type : TypedInt → IntType
  | .int8 _ => .int8
  | .int16 _ => .int16
  | .int32 _ => .int32

def value : TypedInt → Int
  | .int8 x => x.toInt
  | .int16 x => x.toInt
  | .int32 x => x.toInt

end TypedInt

/-- `sizeof`. -/
def IntType.size : IntType → Nat
  | .int8 => 1
  | .int16 => 2
  | .int32 => 4

def TypedInt.encode (x : TypedInt) : List Byte := twosComplement x.type.size x.value

namespace Buffer

/-- `*peek()`. -/
def peekInt8 (b : Buffer) : Outcome (BitVec 8) :=
  check (1 ≤ b.readableBytes) .peekIntLen <|
    match b.buf[b.readerIndex]? with
    | some x => .next x
    | none => .fault .outOfBounds

def peekInt16 (b : Buffer) (host : ByteOrder) : Outcome (BitVec 16) := b.peekInt host 2 16

def retrieveInt8 (b : Buffer) : Outcome Buffer := b.retrieve 1
def retrieveInt16 (b : Buffer) : Outcome Buffer := b.retrieve 2
def retrieveInt32 (b : Buffer) : Outcome Buffer := b.retrieve 4

def readInt8 (b : Buffer) : Outcome (Buffer × BitVec 8) :=
  b.peekInt8.andThen fun result => b.retrieveInt8.andThen fun b' => .next (b', result)

def readInt16 (b : Buffer) (host : ByteOrder) : Outcome (Buffer × BitVec 16) :=
  (b.peekInt16 host).andThen fun result => b.retrieveInt16.andThen fun b' => .next (b', result)

def readInt32 (b : Buffer) (host : ByteOrder) : Outcome (Buffer × BitVec 32) :=
  (b.peekInt32 host).andThen fun result => b.retrieveInt32.andThen fun b' => .next (b', result)

/-! ## The function of a type -/

def appendInt (b : Buffer) (host : ByteOrder) : TypedInt → Outcome Buffer
  | .int8 x => b.appendInt8 host x
  | .int16 x => b.appendInt16 host x
  | .int32 x => b.appendInt32 host x

def prependInt (b : Buffer) (host : ByteOrder) : TypedInt → Outcome Buffer
  | .int8 x => b.prependInt8 host x
  | .int16 x => b.prependInt16 host x
  | .int32 x => b.prependInt32 host x

def peekTyped (b : Buffer) (host : ByteOrder) : IntType → Outcome TypedInt
  | .int8 => b.peekInt8.andThen fun x => .next (.int8 x)
  | .int16 => (b.peekInt16 host).andThen fun x => .next (.int16 x)
  | .int32 => (b.peekInt32 host).andThen fun x => .next (.int32 x)

def readTyped (b : Buffer) (host : ByteOrder) : IntType → Outcome (Buffer × TypedInt)
  | .int8 => b.readInt8.andThen fun r => .next (r.1, .int8 r.2)
  | .int16 => (b.readInt16 host).andThen fun r => .next (r.1, .int16 r.2)
  | .int32 => (b.readInt32 host).andThen fun r => .next (r.1, .int32 r.2)

end Buffer

/-! ## What the functions do -/

theorem IntType.size_le (t : IntType) : t.size ≤ 4 := by
  cases t <;> decide

theorem TypedInt.encode_length (x : TypedInt) : x.encode.length = x.type.size := by
  simp [encode, twosComplement]

namespace Buffer

/-! The bytes that a function copies, for each width. -/

theorem image_int8 (host : ByteOrder) (x : BitVec 8) :
    image 1 x host = (TypedInt.int8 x).encode := by
  have hone : image 1 x host = image 1 x big := by cases host <;> rfl
  rw [hone]
  exact image_big_toInt 1 x (by decide)

theorem image_int16 (host : ByteOrder) (x : BitVec 16) :
    image 2 (hostToNetwork16 host x) host = (TypedInt.int16 x).encode := by
  rw [hostToNetwork16, image_hostToNetwork _ _ _ (by decide)]
  exact image_big_toInt 2 x (by decide)

theorem image_int32 (host : ByteOrder) (x : BitVec 32) :
    image 4 (hostToNetwork32 host x) host = (TypedInt.int32 x).encode := by
  rw [hostToNetwork32, image_hostToNetwork _ _ _ (by decide)]
  exact image_big_toInt 4 x (by decide)

theorem appendInt_eq (b : Buffer) (host : ByteOrder) (x : TypedInt) :
    b.appendInt host x = b.append x.encode := by
  cases x with
  | int8 x => rw [appendInt, appendInt8, image_int8]
  | int16 x => rw [appendInt, appendInt16, image_int16]
  | int32 x => rw [appendInt, appendInt32, image_int32]

theorem prependInt_eq (b : Buffer) (host : ByteOrder) (x : TypedInt) :
    b.prependInt host x = b.prepend x.encode := by
  cases x with
  | int8 x => rw [prependInt, prependInt8, image_int8]
  | int16 x => rw [prependInt, prependInt16, image_int16]
  | int32 x => rw [prependInt, prependInt32, image_int32]

theorem read_tagged {α : Type} (peek : Outcome α) (retrieve : Outcome Buffer) (tag : α → TypedInt) :
    ((peek.andThen fun result => retrieve.andThen fun b' => .next (b', result)).andThen
      fun r => .next (r.1, tag r.2)) =
    (peek.andThen fun x => .next (tag x)).andThen fun x =>
      retrieve.andThen fun b' => .next (b', x) := by
  cases peek <;> cases retrieve <;> rfl

/-- Each `readIntN` is `peekIntN`, and then `retrieve`. -/
theorem readTyped_eq (b : Buffer) (host : ByteOrder) (t : IntType) :
    b.readTyped host t = (b.peekTyped host t).andThen fun x =>
      (b.retrieve t.size).andThen fun b' => .next (b', x) := by
  cases t with
  | int8 =>
    rw [readTyped, readInt8, read_tagged, peekTyped, retrieveInt8, IntType.size]
  | int16 =>
    rw [readTyped, readInt16, read_tagged, peekTyped, retrieveInt16, IntType.size]
  | int32 =>
    rw [readTyped, readInt32, read_tagged, peekTyped, retrieveInt32, IntType.size]

section Front

variable {b : Buffer} {rest : List Byte}

/-- The value whose representation is at the front of the buffer. -/
theorem peekInt_front {k w : Nat} {x : BitVec w} (host : ByteOrder) (h : b.WF) (hw : w = 8 * k)
    (hr : b.readable = twosComplement k x.toInt ++ rest) : b.peekInt host k w = .next x := by
  have himage := image_big_toInt k x (by omega)
  rw [← himage] at hr
  have hlen : (image k x big).length = k := image_length k x big
  have htake : b.readable.take k = image k x big := by
    rw [hr, List.take_append_of_le_length (by omega), List.take_of_length_le (by omega)]
  rw [peekInt_spec host h (by rw [hr, List.length_append]; omega) (by omega), htake,
    ofImage_image k x (by omega)]

theorem peekInt8_front {x : BitVec 8} (h : b.WF)
    (hr : b.readable = twosComplement 1 x.toInt ++ rest) : b.peekInt8 = .next x := by
  have himage := image_big_toInt 1 x (by decide)
  rw [← himage, show image 1 x big = [x] by simp [image, leBytes]] at hr
  have hlen : 1 ≤ b.readable.length := by
    rw [hr, List.length_append, List.length_singleton]
    omega
  have hget : b.buf[b.readerIndex]? = some x := by
    have hfirst : b.readable[0]? = some x := by
      rw [hr]
      rfl
    have hlr := h.readable_length
    rw [readable, Block.slice_getElem?, if_pos (by omega), Nat.add_zero] at hfirst
    exact hfirst
  rw [peekInt8, check_pos (by rw [h.readableBytes_length]; exact hlen), hget]

theorem peekTyped_front {x : TypedInt} (host : ByteOrder) (h : b.WF)
    (hr : b.readable = x.encode ++ rest) : b.peekTyped host x.type = .next x := by
  cases x with
  | int8 x =>
    have hpeek : b.peekInt8 = .next x := peekInt8_front h hr
    rw [TypedInt.type, peekTyped, hpeek, Outcome.andThen_next]
  | int16 x =>
    have hpeek : b.peekInt16 host = .next x := peekInt_front host h rfl hr
    rw [TypedInt.type, peekTyped, hpeek, Outcome.andThen_next]
  | int32 x =>
    have hpeek : b.peekInt32 host = .next x := peekInt_front host h rfl hr
    rw [TypedInt.type, peekTyped, hpeek, Outcome.andThen_next]

theorem readTyped_front {x : TypedInt} (host : ByteOrder) (h : b.WF)
    (hr : b.readable = x.encode ++ rest) :
    ∃ b', b.readTyped host x.type = .next (b', x) ∧ b'.WF ∧ b'.readable = rest := by
  have hlen := x.encode_length
  obtain ⟨b', hb', hwf, hread⟩ := retrieve_spec h (show x.type.size ≤ b.readable.length by
    rw [hr, List.length_append]
    omega)
  refine ⟨b', ?_, hwf, by rw [hread, hr, ← hlen, List.drop_left]⟩
  rw [readTyped_eq, peekTyped_front host h hr, Outcome.andThen_next, hb', Outcome.andThen_next]

end Front

/-- What was prepended is read back, and the readable bytes are those from before. -/
theorem prependInt_read {b : Buffer} (host : ByteOrder) (h : b.WF) (x : TypedInt) :
    (x.type.size ≤ b.prependableBytes ∧ ∃ b₁ b₂, b.prependInt host x = .next b₁ ∧
      b₁.readable = x.encode ++ b.readable ∧ b₁.readTyped host x.type = .next (b₂, x) ∧
      b₂.readable = b.readable) ∨
    (b.prependableBytes < x.type.size ∧
      b.prependInt host x = .fault (.assertion .prependLen)) := by
  have hlen := x.encode_length
  rcases Nat.lt_or_ge b.prependableBytes x.type.size with hlt | hge
  · refine Or.inr ⟨hlt, ?_⟩
    rw [prependInt_eq, prepend, check_neg (by omega)]
  · obtain ⟨b₁, hb₁, hwf₁, hr₁⟩ := prepend_spec h
      (show x.encode.length ≤ b.prependableBytes by omega)
    obtain ⟨b₂, hb₂, -, hr₂⟩ := readTyped_front host hwf₁ hr₁
    exact Or.inl ⟨hge, b₁, b₂, by rw [prependInt_eq]; exact hb₁, hr₁, hb₂, hr₂⟩

end Buffer

/-! ## Interleaved appends and reads -/

structure IntStream where
  buf : Buffer
  /-- What is left of the initial content. -/
  initial : List Byte
  unread : List TypedInt
  /-- What the calls of `readIntN` returned. -/
  results : List TypedInt

namespace IntStream

inductive StreamFault where
  | lengthError
  | buffer (f : Buffer.Fault)
  deriving DecidableEq, Repr

inductive Op where
  /-- `retrieve(len)` of initial content. -/
  | retrieve (len : Nat)
  | append (x : TypedInt)
  /-- `peekIntN` and `readIntN`, for the type of the next value. -/
  | peek
  | read
  deriving DecidableEq, Repr

/-- The value an operation appends. -/
def Op.value? : Op → Option TypedInt
  | .append x => some x
  | .retrieve _ | .peek | .read => none

def returned {α : Type} (o : Buffer.Outcome α) : Except StreamFault α :=
  o.orThrow .lengthError .buffer

def start (b : Buffer) : IntStream := ⟨b, b.readable, [], []⟩

/-- The initial content is retrieved before anything is read, and a value is read after it was
appended. -/
def Enabled (s : IntStream) : Op → Prop
  | .retrieve len => len ≤ s.initial.length
  | .append _ => True
  | .peek | .read => s.initial = [] ∧ s.unread ≠ []

instance (s : IntStream) : (op : Op) → Decidable (s.Enabled op)
  | .retrieve len => inferInstanceAs (Decidable (len ≤ s.initial.length))
  | .append _ => inferInstanceAs (Decidable True)
  | .peek | .read => inferInstanceAs (Decidable (s.initial = [] ∧ s.unread ≠ []))

def exec (host : ByteOrder) (s : IntStream) : Op → Except StreamFault IntStream
  | .retrieve len => do
    let b ← returned (s.buf.retrieve len)
    .ok { s with buf := b, initial := s.initial.drop len }
  | .append x => do
    let b ← returned (s.buf.appendInt host x)
    .ok { s with buf := b, unread := s.unread ++ [x] }
  | .peek =>
    match s.unread with
    | [] => .ok s
    | x :: _ => do
      let _ ← returned (s.buf.peekTyped host x.type)
      .ok s
  | .read =>
    match s.unread with
    | [] => .ok s
    | x :: rest => do
      let (b, y) ← returned (s.buf.readTyped host x.type)
      .ok { s with buf := b, unread := rest, results := s.results ++ [y] }

end IntStream

def intStream (host : ByteOrder) : Machine IntStream IntStream.Op IntStream.StreamFault where
  enabled := IntStream.Enabled
  exec := IntStream.exec host

instance (host : ByteOrder) (s : IntStream) (op : IntStream.Op) :
    Decidable ((intStream host).enabled s op) := inferInstanceAs (Decidable (s.Enabled op))

namespace IntStream

/-- The initial content, and behind it the values that were not read. -/
structure Inv (ops : List Op) (s : IntStream) : Prop where
  wf : s.buf.WF
  readable : s.buf.readable = s.initial ++ s.unread.flatMap TypedInt.encode
  values : s.results ++ s.unread = ops.filterMap Op.value?

theorem start_inv {b : Buffer} (h : b.WF) : (start b).Inv [] :=
  ⟨h, (List.append_nil _).symm, rfl⟩

variable {host : ByteOrder} {ops : List Op} {s : IntStream}

/-- The next value is at the front of the buffer. -/
theorem Inv.front (h : s.Inv ops) (hi : s.initial = []) {x : TypedInt} {rest : List TypedInt}
    (hx : s.unread = x :: rest) :
    s.buf.readable = x.encode ++ rest.flatMap TypedInt.encode := by
  rw [h.readable, hi, hx, List.nil_append, List.flatMap_cons]

theorem Inv.retrieve (h : s.Inv ops) {len : Nat} (hlen : len ≤ s.initial.length) :
    ∃ s', s.exec host (.retrieve len) = .ok s' ∧ s'.Inv (ops ++ [.retrieve len]) := by
  obtain ⟨b, hb, hwf, hr⟩ := Buffer.retrieve_spec h.wf (show len ≤ s.buf.readable.length by
    rw [h.readable, List.length_append]
    omega)
  refine ⟨_, by rw [exec, hb]; rfl, hwf, ?_, ?_⟩
  · show b.readable = s.initial.drop len ++ _
    rw [hr, h.readable, List.drop_append_of_le_length hlen]
  · rw [List.filterMap_append]
    exact h.values.trans (List.append_nil _).symm

theorem Inv.append (h : s.Inv ops) (x : TypedInt) :
    (∃ s', s.exec host (.append x) = .ok s' ∧ s'.Inv (ops ++ [.append x])) ∨
    (s.exec host (.append x) = .error .lengthError ∧
      maxSize < s.buf.readable.length + 2 * x.type.size + Buffer.kCheapPrepend) := by
  have hlen := x.encode_length
  have hmax : x.encode.length ≤ maxSize := by
    have := x.type.size_le
    have : 4 ≤ maxSize := by decide
    omega
  rcases Buffer.append_spec h.wf hmax with ⟨b, hb, hwf, hr⟩ | ⟨ht, hfull⟩
  · refine Or.inl ⟨_, by rw [exec, Buffer.appendInt_eq, hb]; rfl, hwf, ?_, ?_⟩
    · show b.readable = s.initial ++ (s.unread ++ [x]).flatMap TypedInt.encode
      rw [hr, h.readable, List.flatMap_append, List.flatMap_singleton, List.append_assoc]
    · show s.results ++ (s.unread ++ [x]) = _
      rw [← List.append_assoc, h.values, List.filterMap_append]
      rfl
  · exact Or.inr ⟨by rw [exec, Buffer.appendInt_eq, ht]; rfl, by rw [← hlen]; exact hfull⟩

theorem Inv.peek (h : s.Inv ops) (he : s.Enabled .peek) :
    s.exec host .peek = .ok s ∧ s.Inv (ops ++ [.peek]) := by
  obtain ⟨hi, hne⟩ := he
  obtain ⟨x, rest, hx⟩ := List.exists_cons_of_ne_nil hne
  refine ⟨?_, h.wf, h.readable, ?_⟩
  · rw [exec]
    simp only [hx]
    rw [Buffer.peekTyped_front host h.wf (h.front hi hx)]
    rfl
  · rw [List.filterMap_append]
    exact h.values.trans (List.append_nil _).symm

theorem Inv.read (h : s.Inv ops) (he : s.Enabled .read) :
    ∃ s', s.exec host .read = .ok s' ∧ s'.Inv (ops ++ [.read]) := by
  obtain ⟨hi, hne⟩ := he
  obtain ⟨x, rest, hx⟩ := List.exists_cons_of_ne_nil hne
  obtain ⟨b, hb, hwf, hr⟩ := Buffer.readTyped_front host h.wf (h.front hi hx)
  refine ⟨_, by rw [exec]; simp only [hx]; rw [hb]; rfl, hwf, ?_, ?_⟩
  · show b.readable = s.initial ++ rest.flatMap TypedInt.encode
    rw [hr, hi, List.nil_append]
  · show s.results ++ [x] ++ rest = _
    rw [List.append_assoc, List.singleton_append, ← hx, h.values, List.filterMap_append]
    exact (List.append_nil _).symm

/-- An operation returns, or throws when the buffer cannot grow any more. -/
theorem exec_inv (h : s.Inv ops) {op : Op} (he : s.Enabled op) :
    (∃ s', s.exec host op = .ok s' ∧ s'.Inv (ops ++ [op])) ∨
    (s.exec host op = .error .lengthError ∧
      maxSize < s.buf.readable.length + 8 + Buffer.kCheapPrepend) := by
  cases op with
  | retrieve len => exact Or.inl (h.retrieve he)
  | append x =>
    refine (h.append x).imp_right fun ⟨hx, hfull⟩ => ⟨hx, ?_⟩
    have := x.type.size_le
    omega
  | peek => exact Or.inl ⟨s, h.peek he⟩
  | read => exact Or.inl (h.read he)

/-- **Integers round-trip.** A buffer with any content, on a host of either byte order: whatever was
appended, of any types and interleaved with reads in any way, the values read so far and those not
read yet are the values appended, in order. The bytes of the unread ones are their two's complement
representations, most significant first, and `peekIntN` finds the next one and changes nothing. An
operation throws only when the buffer cannot grow. A value that is prepended is read back, and
leaves the readable bytes as they were. -/
theorem ints_round_trip (host : ByteOrder) {b : Buffer} (hwf : b.WF) {ops : List Op}
    {s : IntStream} (hrun : (intStream host).Run (start b) ops s) :
    s.results ++ s.unread = ops.filterMap Op.value? ∧
    s.buf.readable = s.initial ++ s.unread.flatMap TypedInt.encode ∧
    (∀ x rest, s.initial = [] → s.unread = x :: rest →
      s.buf.peekTyped host x.type = .next x ∧ s.exec host .peek = .ok s) ∧
    (∀ op, s.Enabled op → (∃ s', s.exec host op = .ok s') ∨
      (s.exec host op = .error .lengthError ∧
        maxSize < s.buf.readable.length + 8 + Buffer.kCheapPrepend)) ∧
    ∀ x : TypedInt,
      (x.type.size ≤ s.buf.prependableBytes ∧ ∃ b₁ b₂, s.buf.prependInt host x = .next b₁ ∧
        b₁.readable = x.encode ++ s.buf.readable ∧ b₁.readTyped host x.type = .next (b₂, x) ∧
        b₂.readable = s.buf.readable) ∨
      (s.buf.prependableBytes < x.type.size ∧
        s.buf.prependInt host x = .fault (.assertion .prependLen)) := by
  have hstep : ∀ ops s op s', Inv ops s → (intStream host).enabled s op →
      (intStream host).exec s op = .ok s' → Inv (ops ++ [op]) s' := by
    intro ops s op s' h he hx
    rcases exec_inv h he with ⟨s₁, hx₁, h₁⟩ | ⟨hx₁, -⟩
    · cases hx.symm.trans hx₁
      exact h₁
    · cases hx.symm.trans hx₁
  have h : s.Inv ops := hrun.keeps_trace hstep (start_inv hwf)
  refine ⟨h.values, h.readable, fun x rest hi hx => ⟨?_, ?_⟩, fun op he => ?_,
    Buffer.prependInt_read host h.wf⟩
  · exact Buffer.peekTyped_front host h.wf (h.front hi hx)
  · exact (h.peek ⟨hi, by rw [hx]; nofun⟩).1
  · exact (exec_inv h he).imp_left fun ⟨s', hx, _⟩ => ⟨s', hx⟩

/-- Two bytes of content near the end of the vector. -/
def twoBytes : Buffer := ⟨List.replicate 1028 0 ++ [104, 105, 0, 0], 1028, 1030⟩

/-- The first value does not fit behind the content, which is moved to the front; a minimum and a
negative value are read on a little-endian host, and another one is appended. -/
theorem ints_round_trip_sample :
    ∃ s, (intStream little).Run (start twoBytes)
      [.append (.int32 (-2147483648)), .retrieve 2, .append (.int8 (-1)), .peek, .read, .read,
        .append (.int16 (-2))] s ∧
      s.results = [.int32 (-2147483648), .int8 (-1)] ∧ s.buf.readable = [255, 254] ∧
      s.buf.peekTyped little .int16 = .next (.int16 (-2)) := by
  have hwf : twoBytes.WF := by
    constructor <;> decide +kernel
  obtain ⟨s, hrun, hobs⟩ := Machine.Run.of_replay (intStream little) (start twoBytes)
    [.append (.int32 (-2147483648)), .retrieve 2, .append (.int8 (-1)), .peek, .read, .read,
      .append (.int16 (-2))]
    (fun s => (s.results, s.buf.readable, s.initial, s.unread))
    ([.int32 (-2147483648), .int8 (-1)], [255, 254], [], [.int16 (-2)]) (by decide +kernel)
  simp only [Prod.mk.injEq] at hobs
  obtain ⟨hresults, hreadable, hinitial, hunread⟩ := hobs
  obtain ⟨-, -, hpeek, -⟩ := ints_round_trip little hwf hrun
  exact ⟨s, hrun, hresults, hreadable, (hpeek _ _ hinitial hunread).1⟩

end IntStream
end TinyMuduo

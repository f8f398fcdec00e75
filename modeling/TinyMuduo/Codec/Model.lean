import TinyMuduo.Buffer.Correct
import TinyMuduo.Lib.Machine
import TinyMuduo.Lib.Result

/-!
# Codec.Model

`ProtobufCodecLite`: frames of a length, a tag, the serialization of a message and a checksum, as
`fillEmptyBuffer` writes them to a `Buffer` and `onMessage` reads them from one.

* Protobuf and `adler32` are parameters: what serializing a message gives, what parsing bytes gives,
  the checksum of bytes.
* `parse` and what it calls get a pointer and a length. They read through `readAt`, which faults on
  an access outside the frame even where the buffer goes on.
* The loop of `onMessage` has an iteration bound; running out of it is a fault, so that a result
  says that the loop ended.
-/

namespace TinyMuduo

open Result

namespace ProtobufCodecLite

inductive ErrorCode where
  | kNoError
  | kInvalidLength
  | kCheckSumError
  | kInvalidNameLen
  | kUnknownMessageType
  | kParseError
  deriving DecidableEq, Repr

inductive Assertion where
  | bufferEmpty
  | frameSize
  deriving DecidableEq, Repr

inductive Fault where
  /-- `std::length_error` from the buffer's vector -/
  | lengthError
  | buffer (f : Buffer.Fault)
  | assertion (a : Assertion)
  | outOfFrame
  | outOfFuel
  deriving DecidableEq, Repr

/-- A call of `messageCallback_` or of `errorCallback_`. -/
inductive Event (M : Type) where
  | message (m : M)
  | error (e : ErrorCode)
  deriving DecidableEq, Repr

def kHeaderLen : Nat := 4
def kChecksumLen : Nat := 4
def kMaxMessageLen : Nat := 64 * 1024 * 1024

end ProtobufCodecLite

/-- The codec and what it is built on. `kMinMessageLen + kHeaderLen` is an `int`. -/
structure ProtobufCodecLite (M : Type) where
  tag : List Byte
  serialize : M → List Byte
  parseFromArray : List Byte → Option M
  adler32 : List Byte → BitVec 32
  rawCb : Option (List Byte → Bool)
  tag_length : tag.length + 8 < 2 ^ 31

namespace ProtobufCodecLite

variable {M : Type} (c : ProtobufCodecLite M) (host : ByteOrder)

def kMinMessageLen : Nat := c.tag.length + kChecksumLen

/-- Neither the exceptions of the buffer nor its faults are caught. -/
def returned {α : Type} (o : Buffer.Outcome α) : Except Fault α := o.orThrow .lengthError .buffer

/-! ## Writing a frame -/

/-- `serializeToBuffer`: the bytes go straight to `beginWrite()`. -/
def serializeToBuffer (m : M) (b : Buffer) : Except Fault (Buffer × Nat) := do
  let byte_size := (c.serialize m).length
  let b ← returned (b.ensureWritableBytes (byte_size + kChecksumLen))
  let b ← returned (b.storeAt b.writerIndex (c.serialize m))
  ensure (byte_size ≤ b.writableBytes) (.buffer (.assertion .hasWrittenLen))
  .ok (b.hasWritten byte_size, byte_size)

def fillEmptyBuffer (b : Buffer) (m : M) : Except Fault Buffer := do
  ensure (b.readableBytes = 0) (.assertion .bufferEmpty)
  let b ← returned (b.append c.tag)
  let (b, byte_size) ← c.serializeToBuffer m b
  let checkSum := c.adler32 b.readable
  let b ← returned (b.appendInt32 host checkSum)
  ensure (b.readableBytes = c.tag.length + byte_size + kChecksumLen) (.assertion .frameSize)
  let len := Buffer.hostToNetwork32 host (BitVec.ofNat 32 b.readableBytes)
  returned (b.prepend (ByteOrder.image 4 len host))

/-! ## Reading frames

`buf` holds the bytes from the pointer on, `len` is the length given with it. -/

/-- The `n` bytes at `buf + off`. -/
def readAt (buf : List Byte) (len off n : Int) : Except Fault (List Byte) :=
  if 0 ≤ off ∧ 0 ≤ n ∧ off + n ≤ len ∧ len ≤ buf.length then
    .ok ((buf.drop off.toNat).take n.toNat)
  else .error .outOfFrame

/-- `asInt32(buf + off)`. -/
def asInt32 (buf : List Byte) (len off : Int) : Except Fault (BitVec 32) := do
  let be32 ← readAt buf len off 4
  .ok (Buffer.networkToHost host 4 (ByteOrder.ofImage 32 be32 host))

def validateChecksum (buf : List Byte) (len : Int) : Except Fault Bool := do
  let expectedCheckSum ← asInt32 host buf len (len - kChecksumLen)
  let bytes ← readAt buf len 0 (len - kChecksumLen)
  .ok (c.adler32 bytes = expectedCheckSum)

/-- `parse`: the message, or the error code. -/
def parse (buf : List Byte) (len : Int) : Except Fault (Except ErrorCode M) := do
  let valid ← c.validateChecksum host buf len
  if valid then
    let tag ← readAt buf len 0 c.tag.length
    if tag = c.tag then
      let data ← readAt buf len c.tag.length (len - kChecksumLen - c.tag.length)
      match c.parseFromArray data with
      | some m => .ok (.ok m)
      | none => .ok (.error .kParseError)
    else .ok (.error .kUnknownMessageType)
  else .ok (.error .kCheckSumError)

/-- How an iteration of the loop ends. -/
inductive Turn (M : Type) where
  /-- `break`, or the loop condition is false -/
  | stop (e : Option ErrorCode)
  /-- the frame is retrieved, and `messageCallback_` was called unless `rawCb_` took the frame -/
  | next (b : Buffer) (m : Option M)

/-- The body of the loop for a frame that is there as a whole. -/
def frameTurn (b : Buffer) (len : Int) : Except Fault (Turn M) :=
  if c.rawCb.any (fun raw => !raw (b.readable.take (kHeaderLen + len).toNat)) then do
    let b ← returned (b.retrieve (kHeaderLen + len).toNat)
    .ok (.next b none)
  else do
    let parsed ← c.parse host (b.readable.drop kHeaderLen) len
    match parsed with
    | .ok m =>
      let b ← returned (b.retrieve (kHeaderLen + len).toNat)
      .ok (.next b (some m))
    | .error e => .ok (.stop (some e))

def turn (b : Buffer) : Except Fault (Turn M) :=
  if c.kMinMessageLen + kHeaderLen ≤ b.readableBytes then do
    let be32 ← returned (b.peekInt32 host)
    let len := be32.toInt
    if kMaxMessageLen < len ∨ len < c.kMinMessageLen then .ok (.stop (some .kInvalidLength))
    else if kHeaderLen + len ≤ b.readableBytes then c.frameTurn host b len
    else .ok (.stop none)
  else .ok (.stop none)

/-- The loop of `onMessage`, with at most `n` iterations. -/
def loop : Nat → Buffer → Except Fault (Buffer × List (Event M))
  | 0, _ => .error .outOfFuel
  | n + 1, b => do
    let turn ← c.turn host b
    match turn with
    | .stop e => .ok (b, e.toList.map .error)
    | .next b m =>
      let (b, events) ← loop n b
      .ok (b, m.toList.map Event.message ++ events)

/-- `onMessage`, with the calls of the two callbacks. The error callback leaves the buffer alone. -/
def onMessage (b : Buffer) : Except Fault (Buffer × List (Event M)) :=
  c.loop host (b.readableBytes + 1) b

/-! ## A connection -/

/-- An input buffer and what its codec reported; `received` is what has arrived so far. -/
structure Receiver (M : Type) where
  buf : Buffer
  events : List (Event M)
  received : List Byte

def Receiver.init : Receiver M where
  buf := .fresh
  events := []
  received := []

/-- A piece arrives: it is appended, and `onMessage` is called. -/
def Receiver.receive (s : Receiver M) (piece : Data) : Except Fault (Receiver M) := do
  let b ← returned (s.buf.append piece)
  let (b, events) ← c.onMessage host b
  .ok { buf := b, events := s.events ++ events, received := s.received ++ piece }

/-- Pieces of any length arrive, in any number. -/
def receiver : Machine (Receiver M) Data Fault where
  enabled _ _ := True
  exec := Receiver.receive c host

end ProtobufCodecLite
end TinyMuduo

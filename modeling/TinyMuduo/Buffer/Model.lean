import Mathlib.Algebra.Ring.Nat
import TinyMuduo.Lib.Block
import TinyMuduo.Lib.ByteOrder

/-!
# Buffer.Model

`muduo::net::Buffer`: a `std::vector<char>` with a reader and a writer index, as `Buffer.h` and
`Buffer.cc` compute on it.

* Indices and lengths are `size_t`: sums and differences are taken modulo `2 ^ 64`.
* A failed `assert` and a copy that leaves the vector are faults; `std::vector::resize` beyond
  `max_size()` throws `std::length_error` and leaves the vector as it was (`Outcome.threw`).
* `std::copy` writes element by element (`Block.store`, `Block.move`): `makeSpace` slides the
  readable bytes over themselves.
-/

namespace TinyMuduo

/-- `size_t` addition. -/
def sizeAdd (a b : Nat) : Nat := (a + b) % 2 ^ 64

/-- `size_t` subtraction, for `a` and `b` below `2 ^ 64`. -/
def sizeSub (a b : Nat) : Nat := (a + 2 ^ 64 - b) % 2 ^ 64

/-- `std::vector<char>::max_size()`; no object is larger than `PTRDIFF_MAX`. -/
def maxSize : Nat := 2 ^ 63 - 1

/-- A run of bytes handed to the library: an object in memory. -/
abbrev Data := { bytes : List Byte // bytes.length ≤ maxSize }

abbrev Errno := Nat

structure Buffer where
  buf : List Byte
  readerIndex : Nat
  writerIndex : Nat
  deriving DecidableEq, Repr

namespace Buffer

/-- The assertions of `Buffer`. -/
inductive Assertion where
  | retrieveLen
  | retrieveUntilPeek
  | retrieveUntilWrite
  | retrieveAsStringLen
  | writableAfterEnsure
  | prependLen
  | readerAboveCheapPrepend
  | readableAfterMove
  /-- `readableBytes() >= sizeof(..)` in `peekInt8`, `peekInt16`, `peekInt32` -/
  | peekIntLen
  /-- `len <= writableBytes()` in `hasWritten` of the annotated `Buffer.h` -/
  | hasWrittenLen
  deriving DecidableEq, Repr

inductive Fault where
  | assertion (a : Assertion)
  | outOfBounds
  deriving DecidableEq, Repr

/-- What a member function does: it returns, it throws `std::length_error` and leaves the object
as given, or it runs into a fault. -/
inductive Outcome (α : Type) where
  | next (a : α)
  | threw (b : Buffer)
  | fault (f : Fault)
  deriving DecidableEq

/-- Continue with `f` after a return; otherwise keep the outcome. -/
def Outcome.andThen {α β : Type} : Outcome α → (α → Outcome β) → Outcome β
  | .next a, f => f a
  | .threw b, _ => .threw b
  | .fault x, _ => .fault x

/-- An outcome as a caller sees it that does not catch exceptions. -/
def Outcome.orThrow {α ε : Type} (threw : ε) (fault : Fault → ε) : Outcome α → Except ε α
  | .next a => .ok a
  | .threw _ => .error threw
  | .fault f => .error (fault f)

def check {α : Type} (p : Prop) [Decidable p] (a : Assertion) (k : Outcome α) : Outcome α :=
  if p then k else .fault (.assertion a)

def kCheapPrepend : Nat := 8
def kInitialSize : Nat := 1024

/-- `Buffer::Buffer()`. -/
def fresh : Buffer where
  buf := List.replicate (kCheapPrepend + kInitialSize) 0
  readerIndex := kCheapPrepend
  writerIndex := kCheapPrepend

def readableBytes (b : Buffer) : Nat := sizeSub b.writerIndex b.readerIndex
def writableBytes (b : Buffer) : Nat := sizeSub b.buf.length b.writerIndex
def prependableBytes (b : Buffer) : Nat := b.readerIndex

/-- The readable bytes: from `peek()` up to `beginWrite()`. -/
def readable (b : Buffer) : List Byte := Block.slice b.buf b.readerIndex b.writerIndex

def retrieveAll (b : Buffer) : Buffer :=
  { b with readerIndex := kCheapPrepend, writerIndex := kCheapPrepend }

def retrieve (b : Buffer) (len : Nat) : Outcome Buffer :=
  check (len ≤ b.readableBytes) .retrieveLen <|
    if len < b.readableBytes then .next { b with readerIndex := sizeAdd b.readerIndex len }
    else .next b.retrieveAll

/-- `retrieveUntil(begin() + stop)`. -/
def retrieveUntil (b : Buffer) (stop : Nat) : Outcome Buffer :=
  check (b.readerIndex ≤ stop) .retrieveUntilPeek <|
    check (stop ≤ b.writerIndex) .retrieveUntilWrite <|
      b.retrieve (sizeSub stop b.readerIndex)

/-- The string built from the `len` bytes at `peek()`, and the buffer without them. -/
def retrieveAsString (b : Buffer) (len : Nat) : Outcome (Buffer × List Byte) :=
  check (len ≤ b.readableBytes) .retrieveAsStringLen <|
    if b.readerIndex + len ≤ b.buf.length then
      (b.retrieve len).andThen fun b' =>
        .next (b', Block.slice b.buf b.readerIndex (b.readerIndex + len))
    else .fault .outOfBounds

def retrieveAllAsString (b : Buffer) : Outcome (Buffer × List Byte) :=
  b.retrieveAsString b.readableBytes

/-- `std::copy(data, data + len, begin() + i)`. -/
def storeAt (b : Buffer) (i : Nat) (data : List Byte) : Outcome Buffer :=
  if i + data.length ≤ b.buf.length then .next { b with buf := Block.store b.buf i data }
  else .fault .outOfBounds

def hasWritten (b : Buffer) (len : Nat) : Buffer :=
  { b with writerIndex := sizeAdd b.writerIndex len }

/-- `buffer_.resize(n)`. -/
def resize (b : Buffer) (n : Nat) : Outcome Buffer :=
  if n ≤ maxSize then
    .next { b with buf := b.buf.take n ++ List.replicate (n - b.buf.length) 0 }
  else .threw b

/-- The `else` branch of `makeSpace`: the readable bytes move down to `kCheapPrepend`. -/
def moveReadable (b : Buffer) : Outcome Buffer :=
  check (kCheapPrepend < b.readerIndex) .readerAboveCheapPrepend <|
    if b.readerIndex ≤ b.writerIndex ∧ b.writerIndex ≤ b.buf.length then
      let b' : Buffer :=
        { buf := Block.move b.buf b.readerIndex kCheapPrepend (b.writerIndex - b.readerIndex)
          readerIndex := kCheapPrepend
          writerIndex := sizeAdd kCheapPrepend b.readableBytes }
      check (b.readableBytes = b'.readableBytes) .readableAfterMove (.next b')
    else .fault .outOfBounds

def makeSpace (b : Buffer) (len : Nat) : Outcome Buffer :=
  if sizeAdd b.writableBytes b.prependableBytes < sizeAdd len kCheapPrepend then
    b.resize (sizeAdd b.writerIndex len)
  else b.moveReadable

def ensureWritableBytes (b : Buffer) (len : Nat) : Outcome Buffer :=
  (if b.writableBytes < len then b.makeSpace len else .next b).andThen fun b' =>
    check (len ≤ b'.writableBytes) .writableAfterEnsure (.next b')

def append (b : Buffer) (data : List Byte) : Outcome Buffer :=
  (b.ensureWritableBytes data.length).andThen fun b' =>
    (b'.storeAt b'.writerIndex data).andThen fun b'' => .next (b''.hasWritten data.length)

def prepend (b : Buffer) (data : List Byte) : Outcome Buffer :=
  check (data.length ≤ b.prependableBytes) .prependLen <|
    let b' := { b with readerIndex := sizeSub b.readerIndex data.length }
    b'.storeAt b'.readerIndex data

/-- `toStringPiece()`: the length passes through `int`. `none` is a piece of negative length. -/
def toStringPiece (b : Buffer) : Option (List Byte) :=
  let len := (BitVec.ofNat 32 b.readableBytes).toInt
  if 0 ≤ len then some (Block.slice b.buf b.readerIndex (b.readerIndex + len.toNat)) else none

/-- `append(const StringPiece&)`. A negative length becomes a `size_t` no object has. -/
def appendPiece (b : Buffer) : Option (List Byte) → Outcome Buffer
  | some piece => b.append piece
  | none => .fault .outOfBounds

/-- What is thrown while working on a local object leaves `b` alone. -/
def Outcome.locally (b : Buffer) : Outcome Buffer → Outcome Buffer
  | .next other => .next other
  | .threw _ => .threw b
  | .fault f => .fault f

/-- `shrink`: the content moves to a fresh `other`, which is swapped in. -/
def shrink (b : Buffer) (reserve : Nat) : Outcome Buffer :=
  Outcome.locally b <|
    (fresh.ensureWritableBytes (sizeAdd b.readableBytes reserve)).andThen fun other =>
      other.appendPiece b.toStringPiece

/-! ## Integers in network byte order -/

/-- `htobe16`, `htobe32`: the bytes change places on a little-endian host. -/
def hostToNetwork {w : Nat} (host : ByteOrder) (k : Nat) (x : BitVec w) : BitVec w :=
  match host with
  | .little => ByteOrder.byteSwap k x
  | .big => x

def hostToNetwork16 (host : ByteOrder) (x : BitVec 16) : BitVec 16 := hostToNetwork host 2 x
def hostToNetwork32 (host : ByteOrder) (x : BitVec 32) : BitVec 32 := hostToNetwork host 4 x

def appendInt8 (b : Buffer) (host : ByteOrder) (x : BitVec 8) : Outcome Buffer :=
  b.append (ByteOrder.image 1 x host)

def appendInt16 (b : Buffer) (host : ByteOrder) (x : BitVec 16) : Outcome Buffer :=
  b.append (ByteOrder.image 2 (hostToNetwork16 host x) host)

def appendInt32 (b : Buffer) (host : ByteOrder) (x : BitVec 32) : Outcome Buffer :=
  b.append (ByteOrder.image 4 (hostToNetwork32 host x) host)

def prependInt8 (b : Buffer) (host : ByteOrder) (x : BitVec 8) : Outcome Buffer :=
  b.prepend (ByteOrder.image 1 x host)

def prependInt16 (b : Buffer) (host : ByteOrder) (x : BitVec 16) : Outcome Buffer :=
  b.prepend (ByteOrder.image 2 (hostToNetwork16 host x) host)

def prependInt32 (b : Buffer) (host : ByteOrder) (x : BitVec 32) : Outcome Buffer :=
  b.prepend (ByteOrder.image 4 (hostToNetwork32 host x) host)

/-- `be16toh`, `be32toh`. -/
def networkToHost {w : Nat} (host : ByteOrder) (k : Nat) (x : BitVec w) : BitVec w :=
  hostToNetwork host k x

/-- `memcpy(&be, peek(), k)` and the change of the byte order. -/
def peekInt (b : Buffer) (host : ByteOrder) (k w : Nat) : Outcome (BitVec w) :=
  check (k ≤ b.readableBytes) .peekIntLen <|
    if b.readerIndex + k ≤ b.buf.length then
      let be := ByteOrder.ofImage w (Block.slice b.buf b.readerIndex (b.readerIndex + k)) host
      .next (networkToHost host k be)
    else .fault .outOfBounds

def peekInt32 (b : Buffer) (host : ByteOrder) : Outcome (BitVec 32) := b.peekInt host 4 32

/-! ## `readFd` -/

/-- What `readv(2)` reports: an error, or the bytes it delivered. -/
inductive Readv where
  | error (errno : Errno)
  | bytes (data : List Byte)
  deriving DecidableEq, Repr

/-- `sizeof extrabuf`. -/
def extrabufSize : Nat := 65536

/-- What `readFd` reports to its caller: its result, and `savedErrno` when it is set. -/
def Readv.report : Readv → Int × Option Errno
  | .error e => (-1, some e)
  | .bytes data => (data.length, none)

/-- `readFd`: `readv` fills the writable bytes of the vector first, then `extrabuf`, which is
appended afterwards. -/
def readFd (b : Buffer) : Readv → Outcome Buffer
  | .error _ => .next b
  | .bytes data =>
    let writable := b.writableBytes
    (b.storeAt b.writerIndex (data.take writable)).andThen fun b' =>
      if data.length ≤ writable then
        .next { b' with writerIndex := sizeAdd b'.writerIndex data.length }
      else
        { b' with writerIndex := b'.buf.length }.append (data.drop writable)

end Buffer
end TinyMuduo

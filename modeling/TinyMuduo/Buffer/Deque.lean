import TinyMuduo.Buffer.Correct
import TinyMuduo.Lib.Machine
import Mathlib.Logic.Function.Basic

/-!
# Buffer.Deque

A `Buffer` is a byte deque. `pool` runs any number of buffers, all fresh at the start, beside the
deques they stand for: every member function is one label, `swap` exchanges two buffers.

`pool_refines_deques`: along every run the indices stay in order, no assertion fails, and each
buffer reads as its deque, as long as no request wraps around `size_t` (`NoWrap`). A request that
does wrap around breaks this at once, so `NoWrap` is exact.
-/

namespace TinyMuduo
namespace Buffer

open ByteOrder

/-- What a byte deque can do. -/
inductive DequeOp where
  | pushBack (xs : List Byte)
  | pushFront (xs : List Byte)
  | popFront (n : Nat)
  | clear
  | keep

def DequeOp.apply : DequeOp → List Byte → List Byte
  | .pushBack xs, l => l ++ xs
  | .pushFront xs, l => xs ++ l
  | .popFront n, l => l.drop n
  | .clear, _ => []
  | .keep, l => l

/-- The member functions. `write data k` writes `data` at `beginWrite()` and calls
`hasWritten(k)`. -/
inductive Op where
  | append (data : Data)
  | appendInt8 (x : BitVec 8)
  | appendInt16 (x : BitVec 16)
  | appendInt32 (x : BitVec 32)
  | prepend (data : List Byte)
  | prependInt8 (x : BitVec 8)
  | prependInt16 (x : BitVec 16)
  | prependInt32 (x : BitVec 32)
  | ensureWritableBytes (len : Nat)
  | write (data : List Byte) (k : Nat)
  | retrieve (len : Nat)
  | retrieveUntil (stop : Nat)
  | retrieveAsString (len : Nat)
  | retrieveAllAsString
  | retrieveAll
  | readFd (r : Readv)
  | shrink (reserve : Nat)

/-- What a member function gives back. -/
inductive Reply where
  | unit
  | string (s : List Byte)
  | read (n : Int) (savedErrno : Option Errno)
  deriving DecidableEq

def Outcome.quiet (o : Outcome Buffer) : Outcome (Buffer × Reply) :=
  o.andThen fun b => .next (b, .unit)

def Op.exec (host : ByteOrder) (b : Buffer) : Op → Outcome (Buffer × Reply)
  | .append data => (b.append data.1).quiet
  | .appendInt8 x => (b.appendInt8 host x).quiet
  | .appendInt16 x => (b.appendInt16 host x).quiet
  | .appendInt32 x => (b.appendInt32 host x).quiet
  | .prepend data => (b.prepend data).quiet
  | .prependInt8 x => (b.prependInt8 host x).quiet
  | .prependInt16 x => (b.prependInt16 host x).quiet
  | .prependInt32 x => (b.prependInt32 host x).quiet
  | .ensureWritableBytes len => (b.ensureWritableBytes len).quiet
  | .write data k => (b.storeAt b.writerIndex data).andThen fun b' => .next (b'.hasWritten k, .unit)
  | .retrieve len => (b.retrieve len).quiet
  | .retrieveUntil stop => (b.retrieveUntil stop).quiet
  | .retrieveAsString len => (b.retrieveAsString len).andThen fun r => .next (r.1, .string r.2)
  | .retrieveAllAsString => b.retrieveAllAsString.andThen fun r => .next (r.1, .string r.2)
  | .retrieveAll => .next (b.retrieveAll, .unit)
  | .readFd r => (b.readFd r).andThen fun b' => .next (b', .read r.report.1 r.report.2)
  | .shrink reserve => (b.shrink reserve).quiet

/-- What the callers promise. `size_t` arguments are below `2 ^ 64`. -/
def Op.Allowed (b : Buffer) : Op → Prop
  | .append _ | .appendInt8 _ | .appendInt16 _ | .appendInt32 _ => True
  | .prepend data => data.length ≤ b.prependableBytes
  | .prependInt8 _ => 1 ≤ b.prependableBytes
  | .prependInt16 _ => 2 ≤ b.prependableBytes
  | .prependInt32 _ => 4 ≤ b.prependableBytes
  | .ensureWritableBytes len => len < 2 ^ 64
  | .write data k => data.length ≤ b.writableBytes ∧ k ≤ data.length
  | .retrieve len | .retrieveAsString len => len ≤ b.readableBytes
  | .retrieveUntil stop => b.readerIndex ≤ stop ∧ stop ≤ b.writerIndex
  | .retrieveAllAsString | .retrieveAll => True
  | .readFd (.error _) => True
  | .readFd (.bytes data) => data.length ≤ b.writableBytes + extrabufSize
  | .shrink reserve => reserve < 2 ^ 64

/-- What a member function means for the deque. -/
def Op.meaning (b : Buffer) : Op → DequeOp
  | .append data => .pushBack data.1
  | .appendInt8 x => .pushBack (image 1 x big)
  | .appendInt16 x => .pushBack (image 2 x big)
  | .appendInt32 x => .pushBack (image 4 x big)
  | .prepend data => .pushFront data
  | .prependInt8 x => .pushFront (image 1 x big)
  | .prependInt16 x => .pushFront (image 2 x big)
  | .prependInt32 x => .pushFront (image 4 x big)
  | .write data k => .pushBack (data.take k)
  | .retrieve len | .retrieveAsString len => .popFront len
  | .retrieveUntil stop => .popFront (stop - b.readerIndex)
  | .retrieveAllAsString | .retrieveAll => .clear
  | .readFd (.bytes data) => .pushBack data
  | .readFd (.error _) | .ensureWritableBytes _ | .shrink _ => .keep

/-- What the deque gives back. -/
def Op.reply (l : List Byte) : Op → Reply
  | .retrieveAsString len => .string (l.take len)
  | .retrieveAllAsString => .string l
  | .readFd r => .read r.report.1 r.report.2
  | _ => .unit

/-- No sum of `size_t`s wraps around. -/
def Op.NoWrap (b : Buffer) : Op → Prop
  | .ensureWritableBytes len => len ≤ b.writableBytes ∨ b.writerIndex + len < 2 ^ 64
  | .shrink reserve => sizeAdd b.readableBytes reserve + kCheapPrepend < 2 ^ 64
  | _ => True

/-! ## One member function -/

theorem image_one (host : ByteOrder) (x : BitVec 8) : image 1 x host = image 1 x big := by
  cases host <;> rfl

/-- The member function returns, or throws and leaves the buffer as it was. -/
def Realizes (b : Buffer) (o : Outcome (Buffer × Reply)) (l : List Byte) (r : Reply) : Prop :=
  (∃ b', o = .next (b', r) ∧ b'.WF ∧ b'.readable = l) ∨
    (o = .threw b ∧ b.readable = l ∧ r = .unit)

theorem realizes_quiet {b b' : Buffer} {o : Outcome Buffer} {l : List Byte} (h : o = .next b')
    (hwf : b'.WF) (hr : b'.readable = l) : Realizes b o.quiet l .unit :=
  Or.inl ⟨b', by rw [h]; rfl, hwf, hr⟩

theorem append_realizes {b : Buffer} {data : List Byte} (h : b.WF)
    (hfit : (b.readable ++ data).length < 2 ^ 31) :
    Realizes b (b.append data).quiet (b.readable ++ data) .unit := by
  simp only [List.length_append] at hfit
  have hmax : data.length ≤ maxSize := by simp only [maxSize]; omega
  rcases append_spec h hmax with ⟨b', hb', hwf, hr⟩ | ⟨_, hm⟩
  · exact realizes_quiet hb' hwf hr
  · simp only [maxSize, kCheapPrepend] at hm; omega

theorem prepend_realizes {b : Buffer} {data : List Byte} (h : b.WF)
    (hd : data.length ≤ b.prependableBytes) :
    Realizes b (b.prepend data).quiet (data ++ b.readable) .unit := by
  obtain ⟨b', hb', hwf, hr⟩ := prepend_spec h hd
  exact realizes_quiet hb' hwf hr

theorem readFd_realizes {b : Buffer} {data : List Byte} (h : b.WF)
    (hn : data.length ≤ b.writableBytes + extrabufSize)
    (hfit : (b.readable ++ data).length < 2 ^ 31) :
    ∃ b', b.readFd (.bytes data) = .next b' ∧ b'.WF ∧ b'.readable = b.readable ++ data := by
  simp only [List.length_append] at hfit
  rcases readFd_spec h hn with hok | ⟨_, hm⟩
  · exact hok
  · simp only [maxSize, kCheapPrepend] at hm; omega

theorem exec_realizes (host : ByteOrder) {b : Buffer} (h : b.WF)
    (hsmall : b.readable.length < 2 ^ 31) (op : Op) (ha : op.Allowed b)
    (hfit : ((op.meaning b).apply b.readable).length < 2 ^ 31)
    (hnw : op.NoWrap b) :
    Realizes b (op.exec host b) ((op.meaning b).apply b.readable) (op.reply b.readable) := by
  have hrb := h.readableBytes_length
  cases op with
  | append data => exact append_realizes h hfit
  | appendInt8 x =>
    rw [Op.exec, appendInt8, image_one]; exact append_realizes h hfit
  | appendInt16 x =>
    rw [Op.exec, appendInt16, hostToNetwork16, image_hostToNetwork _ _ _ (by decide)]
    exact append_realizes h hfit
  | appendInt32 x =>
    rw [Op.exec, appendInt32, hostToNetwork32, image_hostToNetwork _ _ _ (by decide)]
    exact append_realizes h hfit
  | prepend data => exact prepend_realizes h ha
  | prependInt8 x =>
    rw [Op.exec, prependInt8, image_one]; exact prepend_realizes h (by rw [image_length]; exact ha)
  | prependInt16 x =>
    rw [Op.exec, prependInt16, hostToNetwork16, image_hostToNetwork _ _ _ (by decide)]
    exact prepend_realizes h (by rw [image_length]; exact ha)
  | prependInt32 x =>
    rw [Op.exec, prependInt32, hostToNetwork32, image_hostToNetwork _ _ _ (by decide)]
    exact prepend_realizes h (by rw [image_length]; exact ha)
  | ensureWritableBytes len =>
    rcases ensureWritableBytes_spec h hnw with ⟨b', hb', hwf, hr, _⟩ | ⟨ht, _, _⟩
    · exact realizes_quiet hb' hwf hr
    · exact Or.inr ⟨by rw [Op.exec, ht]; rfl, rfl, rfl⟩
  | write data k =>
    obtain ⟨b', hb', hwf, hr⟩ := write_hasWritten_spec h ha.1 ha.2
    exact Or.inl ⟨_, by rw [Op.exec, hb']; rfl, hwf, hr⟩
  | retrieve len =>
    have hlen : len ≤ b.readable.length := hrb ▸ ha
    obtain ⟨b', hb', hwf, hr⟩ := retrieve_spec h hlen
    exact realizes_quiet hb' hwf hr
  | retrieveUntil stop =>
    obtain ⟨b', hb', hwf, hr⟩ := retrieveUntil_spec h ha.1 ha.2
    exact realizes_quiet hb' hwf hr
  | retrieveAsString len =>
    have hlen : len ≤ b.readable.length := hrb ▸ ha
    obtain ⟨b', hb', hwf, hr⟩ := retrieveAsString_spec h hlen
    exact Or.inl ⟨b', by rw [Op.exec, hb']; rfl, hwf, hr⟩
  | retrieveAllAsString =>
    obtain ⟨b', hb', hwf, hr⟩ := retrieveAsString_spec h (Nat.le_of_eq hrb)
    rw [hrb, List.take_length] at hb'
    rw [hrb, List.drop_length] at hr
    exact Or.inl ⟨b', by rw [Op.exec, retrieveAllAsString, hrb, hb']; rfl, hwf, hr⟩
  | retrieveAll =>
    obtain ⟨hwf, hr⟩ := retrieveAll_spec h
    exact Or.inl ⟨_, rfl, hwf, hr⟩
  | readFd r =>
    cases r with
    | error e => exact Or.inl ⟨b, rfl, h, rfl⟩
    | bytes data =>
      obtain ⟨b', hb', hwf, hr⟩ := readFd_realizes h ha hfit
      exact Or.inl ⟨b', by rw [Op.exec, hb']; rfl, hwf, hr⟩
  | shrink reserve =>
    have hnw' : sizeAdd b.readable.length reserve + kCheapPrepend < 2 ^ 64 := by
      rw [← hrb]; exact hnw
    rcases shrink_spec h hsmall hnw' with ⟨b', hb', hwf, hr⟩ | ht
    · exact realizes_quiet hb' hwf hr
    · exact Or.inr ⟨by rw [Op.exec, ht]; rfl, rfl, rfl⟩

/-- A request that wraps around fails an assertion or leaves the writer index past the end. -/
theorem exec_wraps (host : ByteOrder) {b : Buffer} (h : b.WF) (op : Op) (ha : op.Allowed b)
    (hw : ¬ op.NoWrap b) :
    (∃ f, op.exec host b = .fault f) ∨
    ∃ b' r, op.exec host b = .next (b', r) ∧ b'.buf.length < b'.writerIndex := by
  cases op with
  | ensureWritableBytes len =>
    simp only [Op.NoWrap, not_or, Nat.not_le, Nat.not_lt] at hw
    rcases ensureWritableBytes_wraps h hw.1 ha hw.2 with ⟨f, hf⟩ | ⟨b', hb', hlt⟩
    · exact Or.inl ⟨f, by rw [Op.exec, hf]; rfl⟩
    · exact Or.inr ⟨b', .unit, by rw [Op.exec, hb']; rfl, hlt⟩
  | shrink reserve =>
    simp only [Op.NoWrap, Nat.not_lt, h.readableBytes_length] at hw
    exact Or.inl ⟨_, by rw [Op.exec, shrink_wraps h hw]; rfl⟩
  | _ => exact absurd trivial hw

/-! ## Any number of buffers -/

inductive PoolOp where
  | on (i : Nat) (op : Op)
  | swap (i j : Nat)

/-- Buffers, the deques they stand for, and the replies given on both sides so far. -/
structure Pool where
  buffer : Nat → Buffer
  deque : Nat → List Byte
  replies : List Reply
  dequeReplies : List Reply

namespace Pool

def init : Pool := ⟨fun _ => fresh, fun _ => [], [], []⟩

def exchange {α : Type} (f : Nat → α) (i j : Nat) : Nat → α :=
  Function.update (Function.update f i (f j)) j (f i)

/-- Put `b` and its deque `l` in place `i`, and note the replies. -/
def put (p : Pool) (i : Nat) (b : Buffer) (l : List Byte) (r r' : Reply) : Pool where
  buffer := Function.update p.buffer i b
  deque := Function.update p.deque i l
  replies := p.replies ++ [r]
  dequeReplies := p.dequeReplies ++ [r']

def exec (host : ByteOrder) (p : Pool) : PoolOp → Except Fault Pool
  | .on i op =>
    let l := (op.meaning (p.buffer i)).apply (p.deque i)
    match op.exec host (p.buffer i) with
    | .next (b, r) => .ok (p.put i b l r (op.reply (p.deque i)))
    | .threw b => .ok (p.put i b l .unit (op.reply (p.deque i)))
    | .fault f => .error f
  | .swap i j => .ok { p with buffer := exchange p.buffer i j, deque := exchange p.deque i j }

/-- The callers keep their promises, and no buffer holds `2 ^ 31` bytes or more. -/
def Enabled (p : Pool) : PoolOp → Prop
  | .on i op => op.Allowed (p.buffer i) ∧
      ((op.meaning (p.buffer i)).apply (p.deque i)).length < 2 ^ 31
  | .swap _ _ => True

def NoWrap (p : Pool) : PoolOp → Prop
  | .on i op => op.NoWrap (p.buffer i)
  | .swap _ _ => True

/-- The indices are in order, each buffer reads as its deque, and so do all replies. -/
structure Matches (p : Pool) : Prop where
  order : ∀ i, (p.buffer i).readerIndex ≤ (p.buffer i).writerIndex ∧
    (p.buffer i).writerIndex ≤ (p.buffer i).buf.length
  content : ∀ i, (p.buffer i).readable = p.deque i
  replies : p.replies = p.dequeReplies

/-- The invariant that carries `Matches` through a run. -/
structure Inv (p : Pool) : Prop where
  wf : ∀ i, (p.buffer i).WF
  content : ∀ i, (p.buffer i).readable = p.deque i
  small : ∀ i, (p.deque i).length < 2 ^ 31
  replies : p.replies = p.dequeReplies

theorem Inv.matches {p : Pool} (h : p.Inv) : p.Matches :=
  ⟨fun i => ⟨(h.wf i).reader_le, (h.wf i).writer_le⟩, h.content, h.replies⟩

theorem init_inv : init.Inv :=
  ⟨fun _ => fresh_wf, fun _ => fresh_readable, fun _ => Nat.two_pow_pos 31, rfl⟩

theorem put_inv {p : Pool} (h : p.Inv) (i : Nat) {b : Buffer} {l : List Byte} {r : Reply}
    (hwf : b.WF) (hr : b.readable = l) (hl : l.length < 2 ^ 31) : (p.put i b l r r).Inv := by
  refine ⟨fun k => ?_, fun k => ?_, fun k => ?_, by simp [put, h.replies]⟩ <;>
    by_cases hk : k = i
  · subst hk; simpa [put] using hwf
  · simpa [put, hk] using h.wf k
  · subst hk; simpa [put] using hr
  · simpa [put, hk] using h.content k
  · subst hk; simpa [put] using hl
  · simpa [put, hk] using h.small k

/-- What holds at every index holds after two of them are exchanged. -/
theorem exchange_rel {α β : Type} {R : α → β → Prop} {f : Nat → α} {g : Nat → β}
    (h : ∀ k, R (f k) (g k)) (i j k : Nat) : R (exchange f i j k) (exchange g i j k) := by
  unfold exchange
  by_cases hj : k = j
  · subst hj; simpa using h i
  · by_cases hi : k = i
    · subst hi; simpa [hj] using h j
    · simpa [hi, hj] using h k

theorem exec_inv (host : ByteOrder) {p : Pool} (h : p.Inv) (l : PoolOp) (he : p.Enabled l)
    (hnw : p.NoWrap l) : ∃ p', p.exec host l = .ok p' ∧ p'.Inv := by
  cases l with
  | swap i j =>
    have hswap := exchange_rel
      (R := fun (b : Buffer) (l : List Byte) => b.WF ∧ b.readable = l ∧ l.length < 2 ^ 31)
      (fun k => ⟨h.wf k, h.content k, h.small k⟩) i j
    exact ⟨_, rfl, fun k => (hswap k).1, fun k => (hswap k).2.1, fun k => (hswap k).2.2, h.replies⟩
  | on i op =>
    obtain ⟨ha, hfit⟩ := he
    have hc := h.content i
    rw [← hc] at hfit
    have hsmall : (p.buffer i).readable.length < 2 ^ 31 := by rw [hc]; exact h.small i
    simp only [exec, ← hc]
    rcases exec_realizes host (h.wf i) hsmall op ha hfit hnw with
      ⟨b', hb', hwf, hr⟩ | ⟨ht, hr, hunit⟩
    · rw [hb']
      exact ⟨_, rfl, put_inv h i hwf hr hfit⟩
    · rw [ht, hunit]
      exact ⟨_, rfl, put_inv h i (h.wf i) hr hfit⟩

theorem exec_on_deque {host : ByteOrder} {p p' : Pool} {i : Nat} {op : Op}
    (h : p.exec host (.on i op) = .ok p') :
    p'.deque i = (op.meaning (p.buffer i)).apply (p.deque i) := by
  simp only [exec] at h
  split at h
  · cases h; simp [put]
  · cases h; simp [put]
  · cases h

theorem exec_wraps_breaks (host : ByteOrder) {p : Pool} (h : p.Inv) (l : PoolOp)
    (he : p.Enabled l) (hw : ¬ p.NoWrap l) {p' : Pool} (hx : p.exec host l = .ok p') :
    ¬ p'.Matches := by
  cases l with
  | swap i j => exact absurd trivial hw
  | on i op =>
    intro hm
    simp only [exec] at hx
    rcases exec_wraps host (h.wf i) op he.1 hw with ⟨f, hf⟩ | ⟨b', r, hb', hlt⟩
    · rw [hf] at hx; cases hx
    · rw [hb'] at hx; cases hx
      have := (hm.order i).2
      simp only [put, Function.update_self] at this
      omega

end Pool

def pool (host : ByteOrder) : Machine Pool PoolOp Fault where
  enabled := Pool.Enabled
  exec := Pool.exec host

theorem pool_safe (host : ByteOrder) : ((pool host).under Pool.NoWrap).Safe Pool.Inv :=
  fun _ l h he => Pool.exec_inv host h l he.1 he.2

/-- **Buffers are byte deques.** After every run in which no request wraps around `size_t`, the
indices of every buffer are in order, it reads as its deque, and every reply was the deque's. The
next member function then runs without a fault into such a state exactly when it does not wrap
around either. -/
theorem pool_refines_deques (host : ByteOrder) {ops : List PoolOp} {p : Pool}
    (h : Machine.Run ((pool host).under Pool.NoWrap) Pool.init ops p) :
    p.Matches ∧ ∀ l, p.Enabled l →
      (p.NoWrap l ↔ ∃ p', p.exec host l = .ok p' ∧ p'.Matches) := by
  have hinv : p.Inv := h.keeps (pool_safe host).keeps Pool.init_inv
  refine ⟨hinv.matches, fun l he => ⟨fun hnw => ?_, ?_⟩⟩
  · obtain ⟨p', hx, hinv'⟩ := Pool.exec_inv host hinv l he hnw
    exact ⟨p', hx, hinv'.matches⟩
  · rintro ⟨p', hx, hm⟩
    by_contra hw
    exact Pool.exec_wraps_breaks host hinv l he hw hx hm

/-- Three bytes go in, two come out, and the buffer is swapped with another. -/
theorem pool_refines_deques_sample :
    ∃ p, Machine.Run ((pool .little).under Pool.NoWrap) Pool.init
      [.on 0 (.append ⟨[1, 2, 3], by decide⟩), .on 0 (.retrieve 2), .swap 0 1] p ∧ p.Matches := by
  obtain ⟨p₀, hp₀, hi₀, hd₀⟩ : ∃ p₀, Pool.init = p₀ ∧ p₀.Inv ∧ p₀.deque 0 = [] :=
    ⟨_, rfl, Pool.init_inv, rfl⟩
  rw [hp₀]
  have he₁ : p₀.Enabled (.on 0 (.append ⟨[1, 2, 3], by decide⟩)) := by
    refine ⟨trivial, ?_⟩
    rw [hd₀]; exact (by decide : [(1 : Byte), 2, 3].length < 2 ^ 31)
  obtain ⟨p₁, hx₁, hi₁⟩ := Pool.exec_inv .little hi₀ _ he₁ trivial
  have hd₁ : p₁.deque 0 = [1, 2, 3] := by
    rw [Pool.exec_on_deque hx₁, hd₀]; rfl
  have he₂ : p₁.Enabled (.on 0 (.retrieve 2)) := by
    refine ⟨?_, ?_⟩
    · show 2 ≤ (p₁.buffer 0).readableBytes
      rw [(hi₁.wf 0).readableBytes_length, hi₁.content 0, hd₁]; decide
    · rw [hd₁]; exact (by decide : [(3 : Byte)].length < 2 ^ 31)
  obtain ⟨p₂, hx₂, _⟩ := Pool.exec_inv .little hi₁ _ he₂ trivial
  obtain ⟨p₃, hx₃⟩ : ∃ p₃, p₂.exec .little (.swap 0 1) = .ok p₃ := ⟨_, rfl⟩
  have hrun : Machine.Run ((pool .little).under Pool.NoWrap) p₀
      [.on 0 (.append ⟨[1, 2, 3], by decide⟩), .on 0 (.retrieve 2), .swap 0 1] p₃ :=
    .cons ⟨he₁, trivial⟩ hx₁ (.cons ⟨he₂, trivial⟩ hx₂ (.single ⟨trivial, trivial⟩ hx₃))
  exact ⟨p₃, hrun, (pool_refines_deques .little (hp₀ ▸ hrun)).1⟩

/-- `ensureWritableBytes(SIZE_MAX - 7)` on a fresh buffer: `len + kCheapPrepend` wraps around to
`0`, and the assertion of the move fails. -/
theorem ensureWritableBytes_max_asserts :
    Pool.init.Enabled (.on 0 (.ensureWritableBytes (2 ^ 64 - 8))) ∧
    Pool.init.exec .little (.on 0 (.ensureWritableBytes (2 ^ 64 - 8))) =
      .error (.assertion .readerAboveCheapPrepend) := by
  refine ⟨⟨(by decide : 2 ^ 64 - 8 < 2 ^ 64), Nat.two_pow_pos 31⟩, ?_⟩
  have hf : fresh.ensureWritableBytes (2 ^ 64 - 8) =
      .fault (.assertion .readerAboveCheapPrepend) :=
    ensureWritableBytes_wraps_fresh rfl fresh_sizes.2.1 (by decide) (by decide)
  have hx : (Op.ensureWritableBytes (2 ^ 64 - 8)).exec .little (Pool.init.buffer 0) =
      .fault (.assertion .readerAboveCheapPrepend) := by
    rw [Op.exec, show Pool.init.buffer 0 = fresh from rfl, hf]; rfl
  rw [Pool.exec, hx]

end Buffer
end TinyMuduo

import TinyMuduo.Buffer.Model

/-!
# Buffer.Correct

What each member function of `Buffer` does to a well-formed buffer (`Buffer.WF`): it keeps the
buffer well formed, no assertion fails, and the readable bytes change as a byte queue's would.

Only `resize` can stop a function short, and only for a request beyond `max_size()`; the bounds in
the lemmas say how large the request then is. `ensureWritableBytes` needs `writerIndex + len` to
stay below `2 ^ 64`; `ensureWritableBytes_wraps` says what happens when it does not.
-/

namespace TinyMuduo

theorem sizeAdd_of_lt {a b : Nat} (h : a + b < 2 ^ 64) : sizeAdd a b = a + b :=
  Nat.mod_eq_of_lt h

theorem sizeSub_of_le {a b : Nat} (h : b ≤ a) (ha : a < 2 ^ 64) : sizeSub a b = a - b := by
  unfold sizeSub
  rw [show a + 2 ^ 64 - b = a - b + 2 ^ 64 by omega, Nat.add_mod_right]
  exact Nat.mod_eq_of_lt (by omega)

namespace Buffer

variable {b : Buffer}

/-- `0 <= readerIndex <= writerIndex <= size`, in a vector that never shrinks below its initial
size. -/
structure WF (b : Buffer) : Prop where
  cheap_le : kCheapPrepend ≤ b.writerIndex
  reader_le : b.readerIndex ≤ b.writerIndex
  writer_le : b.writerIndex ≤ b.buf.length
  initial_le : kCheapPrepend + kInitialSize ≤ b.buf.length
  size_le : b.buf.length ≤ maxSize

theorem check_pos {α : Type} {p : Prop} [Decidable p] {a : Assertion} {k : Outcome α} (h : p) :
    check p a k = k := if_pos h

theorem check_neg {α : Type} {p : Prop} [Decidable p] {a : Assertion} {k : Outcome α}
    (h : ¬ p) : check p a k = .fault (.assertion a) := if_neg h

@[simp] theorem Outcome.andThen_next {α β : Type} (a : α) (f : α → Outcome β) :
    (Outcome.next a).andThen f = f a := rfl

@[simp] theorem Outcome.andThen_threw {α β : Type} (b : Buffer) (f : α → Outcome β) :
    (Outcome.threw b : Outcome α).andThen f = .threw b := rfl

theorem fresh_wf : fresh.WF := by
  have hlen : fresh.buf.length = 1032 := List.length_replicate
  exact ⟨Nat.le_refl _, Nat.le_refl _, by rw [hlen]; decide, by rw [hlen]; decide,
    by rw [hlen]; decide⟩

@[simp] theorem fresh_readable : fresh.readable = [] := Block.slice_self _ _

/-- The three assertions of the constructor. -/
theorem fresh_sizes : fresh.readableBytes = 0 ∧ fresh.writableBytes = kInitialSize ∧
    fresh.prependableBytes = kCheapPrepend := by
  have hlen : fresh.buf.length = 1032 := List.length_replicate
  refine ⟨by decide, ?_, rfl⟩
  rw [writableBytes, hlen]; decide

theorem WF.length_lt (h : b.WF) : b.buf.length < 2 ^ 63 := by
  have := h.size_le
  simp only [maxSize] at this
  omega

theorem WF.readable_length (h : b.WF) : b.readable.length = b.writerIndex - b.readerIndex :=
  Block.slice_length h.writer_le

theorem WF.readableBytes_eq (h : b.WF) : b.readableBytes = b.writerIndex - b.readerIndex := by
  have := h.length_lt; have := h.writer_le
  exact sizeSub_of_le h.reader_le (by omega)

theorem WF.readableBytes_length (h : b.WF) : b.readableBytes = b.readable.length := by
  rw [h.readableBytes_eq, h.readable_length]

theorem WF.writableBytes_eq (h : b.WF) : b.writableBytes = b.buf.length - b.writerIndex := by
  have := h.length_lt
  exact sizeSub_of_le h.writer_le (by omega)

/-! ## Taking bytes out -/

theorem retrieveAll_spec (h : b.WF) :
    b.retrieveAll.WF ∧ b.retrieveAll.readable = [] := by
  have := h.initial_le
  refine ⟨⟨Nat.le_refl _, Nat.le_refl _, ?_, h.initial_le, h.size_le⟩, Block.slice_self _ _⟩
  show kCheapPrepend ≤ b.buf.length
  omega

theorem retrieve_spec {len : Nat} (h : b.WF) (hlen : len ≤ b.readable.length) :
    ∃ b', b.retrieve len = .next b' ∧ b'.WF ∧ b'.readable = b.readable.drop len := by
  have hr := h.readableBytes_length
  rw [retrieve, check_pos (by omega)]
  have hlt := h.length_lt; have hw := h.writer_le; have hlr := h.readable_length
  by_cases hl : len < b.readableBytes
  · rw [if_pos hl, sizeAdd_of_lt (by omega)]
    refine ⟨_, rfl, ⟨h.cheap_le, ?_, h.writer_le, h.initial_le, h.size_le⟩,
      Block.slice_drop _ _ _ _⟩
    show b.readerIndex + len ≤ b.writerIndex
    omega
  · rw [if_neg hl]
    obtain ⟨hwf, hnil⟩ := retrieveAll_spec h
    refine ⟨_, rfl, hwf, ?_⟩
    rw [hnil, List.drop_eq_nil_of_le (by omega)]

theorem retrieveUntil_spec {stop : Nat} (h : b.WF) (h₁ : b.readerIndex ≤ stop)
    (h₂ : stop ≤ b.writerIndex) :
    ∃ b', b.retrieveUntil stop = .next b' ∧ b'.WF ∧
      b'.readable = b.readable.drop (stop - b.readerIndex) := by
  have hlt := h.length_lt; have hw := h.writer_le; have hlr := h.readable_length
  rw [retrieveUntil, check_pos h₁, check_pos h₂, sizeSub_of_le h₁ (by omega)]
  exact retrieve_spec h (by omega)

theorem retrieveAsString_spec {len : Nat} (h : b.WF) (hlen : len ≤ b.readable.length) :
    ∃ b', b.retrieveAsString len = .next (b', b.readable.take len) ∧ b'.WF ∧
      b'.readable = b.readable.drop len := by
  have hr := h.readableBytes_length
  have hw := h.writer_le; have hlr := h.readable_length; have := h.reader_le
  obtain ⟨b', hb', hwf, hread⟩ := retrieve_spec h hlen
  rw [retrieveAsString, check_pos (by omega), if_pos (by omega), hb']
  refine ⟨b', ?_, hwf, hread⟩
  rw [readable, ← Block.slice_take _ _ _ _ (by omega)]
  rfl

theorem networkToHost_ofImage {w : Nat} (host : ByteOrder) (bs : List Byte)
    (h : 8 * bs.length ≤ w) :
    networkToHost host bs.length (ByteOrder.ofImage w bs host) = ByteOrder.ofImage w bs .big := by
  cases host with
  | little => exact ByteOrder.byteSwap_ofImage_little bs h
  | big => rfl

/-- The bytes at `peek()` are read as a big-endian integer, whatever the host's byte order is. -/
theorem peekInt_spec {k w : Nat} (host : ByteOrder) (h : b.WF)
    (hk : k ≤ b.readable.length) (hw : 8 * k ≤ w) :
    b.peekInt host k w = .next (ByteOrder.ofImage w (b.readable.take k) .big) := by
  have hr := h.readableBytes_length; have hlr := h.readable_length
  have hwl := h.writer_le; have hrl := h.reader_le
  have hslice : Block.slice b.buf b.readerIndex (b.readerIndex + k) = b.readable.take k :=
    Block.slice_take _ _ _ _ (by omega)
  have hlen : (b.readable.take k).length = k := List.length_take_of_le hk
  rw [peekInt, check_pos (by omega), if_pos (by omega), hslice]
  have hnet := networkToHost_ofImage host (b.readable.take k) (w := w) (by rw [hlen]; exact hw)
  rw [hlen] at hnet
  simp only [hnet]

/-! ## Making room -/

theorem moveReadable_spec (h : b.WF) (hr : kCheapPrepend < b.readerIndex) :
    ∃ b', b.moveReadable = .next b' ∧ b'.WF ∧ b'.readable = b.readable ∧
      b'.buf.length = b.buf.length ∧ b'.writerIndex = kCheapPrepend + b.readable.length := by
  have hlt := h.length_lt; have hw := h.writer_le; have hrl := h.reader_le
  have hlr := h.readable_length; have hre := h.readableBytes_eq
  have hsum : sizeAdd kCheapPrepend b.readableBytes = kCheapPrepend + b.readable.length := by
    rw [h.readableBytes_length]; exact sizeAdd_of_lt (by omega)
  rw [moveReadable, check_pos hr, if_pos ⟨hrl, hw⟩]
  simp only [hsum]
  have hsub : sizeSub (kCheapPrepend + b.readable.length) kCheapPrepend = b.readable.length := by
    rw [sizeSub_of_le (by omega) (by omega)]; omega
  rw [check_pos (by simp only [readableBytes, hsub]; rw [← h.readableBytes_length]; rfl)]
  refine ⟨_, rfl, ⟨?_, ?_, ?_, ?_, ?_⟩, ?_, ?_, rfl⟩
  · show kCheapPrepend ≤ kCheapPrepend + b.readable.length
    omega
  · show kCheapPrepend ≤ kCheapPrepend + b.readable.length
    omega
  · simp only [Block.move_length]; omega
  · simpa using h.initial_le
  · simpa using h.size_le
  · simp only [readable]
    have := Block.slice_move (l := b.buf) (Nat.le_of_lt hr)
      (show b.readerIndex + (b.writerIndex - b.readerIndex) ≤ b.buf.length by omega)
    rw [show b.readerIndex + (b.writerIndex - b.readerIndex) = b.writerIndex by omega] at this
    rw [show (Block.slice b.buf b.readerIndex b.writerIndex).length =
      b.writerIndex - b.readerIndex from hlr]
    exact this
  · simp

theorem resize_spec {n : Nat} (h : b.WF) (hn : b.buf.length ≤ n) :
    (∃ b', b.resize n = .next b' ∧ b'.WF ∧ b'.readable = b.readable ∧ b'.buf.length = n ∧
      b'.writerIndex = b.writerIndex) ∨
    (b.resize n = .threw b ∧ maxSize < n) := by
  have hw := h.writer_le; have hi := h.initial_le
  have hlen : (b.buf.take n ++ List.replicate (n - b.buf.length) (0 : Byte)).length = n := by
    simp; omega
  unfold resize
  by_cases hm : n ≤ maxSize
  · rw [if_pos hm]
    refine Or.inl ⟨_, rfl, ⟨h.cheap_le, h.reader_le, ?_, ?_, ?_⟩, ?_, hlen, rfl⟩
    · rw [hlen]; exact Nat.le_trans hw hn
    · rw [hlen]; omega
    · rw [hlen]; exact hm
    · simp only [readable]
      rw [List.take_of_length_le hn, Block.slice_append hw]
  · rw [if_neg hm]
    exact Or.inr ⟨rfl, by omega⟩

theorem makeSpace_spec {len : Nat} (h : b.WF) (hlt : b.writableBytes < len)
    (hnw : b.writerIndex + len < 2 ^ 64) :
    (∃ b', b.makeSpace len = .next b' ∧ b'.WF ∧ b'.readable = b.readable ∧
      b'.writerIndex + len ≤ b'.buf.length) ∨
    (b.makeSpace len = .threw b ∧ maxSize < b.writerIndex + len ∧
      b.buf.length < b.readable.length + len + kCheapPrepend) := by
  have hl := h.length_lt; have hw := h.writer_le; have hrl := h.reader_le
  have hlr := h.readable_length; have hc := h.cheap_le
  rw [h.writableBytes_eq] at hlt
  unfold makeSpace
  rw [h.writableBytes_eq, prependableBytes,
    sizeAdd_of_lt (a := b.buf.length - b.writerIndex) (by omega),
    sizeAdd_of_lt (a := len) (by omega), sizeAdd_of_lt hnw]
  by_cases hg : b.buf.length - b.writerIndex + b.readerIndex < len + kCheapPrepend
  · rw [if_pos hg]
    rcases resize_spec (n := b.writerIndex + len) h (by omega) with
      ⟨b', hb', hwf, hr, hlen, hwr⟩ | ⟨ht, hm⟩
    · exact Or.inl ⟨b', hb', hwf, hr, by omega⟩
    · exact Or.inr ⟨ht, hm, by omega⟩
  · rw [if_neg hg]
    obtain ⟨b', hb', hwf, hr, hlen, hwr⟩ := moveReadable_spec h (by omega)
    exact Or.inl ⟨b', hb', hwf, hr, by omega⟩

theorem ensureWritableBytes_spec {len : Nat} (h : b.WF)
    (hnw : len ≤ b.writableBytes ∨ b.writerIndex + len < 2 ^ 64) :
    (∃ b', b.ensureWritableBytes len = .next b' ∧ b'.WF ∧ b'.readable = b.readable ∧
      b'.writerIndex + len ≤ b'.buf.length) ∨
    (b.ensureWritableBytes len = .threw b ∧ maxSize < b.writerIndex + len ∧
      b.buf.length < b.readable.length + len + kCheapPrepend) := by
  unfold ensureWritableBytes
  by_cases hlt : b.writableBytes < len
  · rw [if_pos hlt]
    rcases makeSpace_spec h hlt (by omega) with ⟨b', hb', hwf, hr, hroom⟩ | ⟨ht, hm, hs⟩
    · rw [hb']
      refine Or.inl ⟨b', ?_, hwf, hr, hroom⟩
      exact check_pos (by rw [hwf.writableBytes_eq]; omega)
    · rw [ht]
      exact Or.inr ⟨rfl, hm, hs⟩
  · rw [if_neg hlt]
    have hroom := h.writableBytes_eq
    have := h.writer_le
    exact Or.inl ⟨b, check_pos (by omega), h, rfl, by omega⟩

/-- A request so large that `writerIndex + len` wraps around is never met: an assertion fails, or
`resize` cuts the vector off below the writer index and the last assertion wraps around too. -/
theorem ensureWritableBytes_wraps {len : Nat} (h : b.WF)
    (hlt : b.writableBytes < len) (hlen : len < 2 ^ 64) (hwrap : 2 ^ 64 ≤ b.writerIndex + len) :
    (∃ f, b.ensureWritableBytes len = .fault f) ∨
    ∃ b', b.ensureWritableBytes len = .next b' ∧ b'.buf.length < b'.writerIndex := by
  have hl := h.length_lt; have hw := h.writer_le; have hrl := h.reader_le
  obtain ⟨n, hn⟩ := Nat.exists_eq_add_of_le hwrap
  have hsum : sizeAdd b.writerIndex len = n := by
    unfold sizeAdd
    rw [hn, Nat.add_mod_left]
    exact Nat.mod_eq_of_lt (by omega)
  unfold ensureWritableBytes
  rw [if_pos hlt]
  unfold makeSpace
  rw [hsum]
  split
  · -- `resize` shrinks the vector to the wrapped size
    have hm : n ≤ maxSize := by simp only [maxSize]; omega
    have hlen' : (b.buf.take n).length = n := by simp; omega
    refine Or.inr ⟨{ b with buf := b.buf.take n }, ?_, ?_⟩
    · rw [resize, if_pos hm, Outcome.andThen_next, show n - b.buf.length = 0 by omega,
        List.replicate_zero, List.append_nil]
      refine check_pos ?_
      have hwrapped : sizeSub n b.writerIndex = len := by
        unfold sizeSub
        rw [show n + 2 ^ 64 - b.writerIndex = len by omega]
        exact Nat.mod_eq_of_lt hlen
      simp only [writableBytes, hlen', hwrapped]
      exact Nat.le_refl _
    · show (b.buf.take n).length < b.writerIndex
      omega
  · -- the content is moved instead, which cannot make room for `len` bytes
    refine Or.inl ?_
    by_cases hr : kCheapPrepend < b.readerIndex
    · obtain ⟨b', hb', hwf, _, hbl, _⟩ := moveReadable_spec h hr
      rw [hb', Outcome.andThen_next]
      refine ⟨_, check_neg ?_⟩
      rw [hwf.writableBytes_eq]; omega
    · refine ⟨.assertion .readerAboveCheapPrepend, ?_⟩
      rw [moveReadable, check_neg hr]; rfl

/-- Room is never made out of the cheap prepend area. -/
theorem ensureWritableBytes_cheap {b b' : Buffer} {len : Nat}
    (h : b.ensureWritableBytes len = .next b') (hr : kCheapPrepend ≤ b.readerIndex) :
    kCheapPrepend ≤ b'.readerIndex := by
  unfold ensureWritableBytes makeSpace resize moveReadable check at h
  split at h
  · split at h
    · split at h
      · rw [Outcome.andThen_next] at h
        split at h
        · cases h; exact hr
        · cases h
      · cases h
    · split at h
      · split at h
        · dsimp only at h
          split at h
          · rw [Outcome.andThen_next] at h
            split at h
            · cases h; exact Nat.le_refl _
            · cases h
          · cases h
        · cases h
      · cases h
  · rw [Outcome.andThen_next] at h
    split at h
    · cases h; exact hr
    · cases h

theorem storeAt_indices {b b' : Buffer} {i : Nat} {data : List Byte}
    (h : b.storeAt i data = .next b') :
    b'.readerIndex = b.readerIndex ∧ b'.writerIndex = b.writerIndex ∧
      b'.buf.length = b.buf.length := by
  unfold storeAt at h
  split at h
  · cases h; exact ⟨rfl, rfl, Block.store_length _ _ _⟩
  · cases h

/-! ## Putting bytes in -/

theorem image_hostToNetwork {w : Nat} (host : ByteOrder) (k : Nat) (x : BitVec w) (h : 8 * k ≤ w) :
    ByteOrder.image k (hostToNetwork host k x) host = ByteOrder.image k x .big := by
  cases host with
  | little => exact ByteOrder.image_little_byteSwap k x h
  | big => rfl

theorem storeAt_hasWritten {data : List Byte} (h : b.WF)
    (hroom : b.writerIndex + data.length ≤ b.buf.length) {k : Nat} (hk : k ≤ data.length) :
    ∃ b', b.storeAt b.writerIndex data = .next b' ∧ (b'.hasWritten k).WF ∧
      (b'.hasWritten k).readable = b.readable ++ data.take k := by
  have hl := h.length_lt; have hrl := h.reader_le; have hc := h.cheap_le
  rw [storeAt, if_pos hroom]
  refine ⟨_, rfl, ?_, ?_⟩
  · simp only [hasWritten]
    rw [sizeAdd_of_lt (by omega)]
    exact ⟨by show kCheapPrepend ≤ b.writerIndex + k; omega,
      by show b.readerIndex ≤ b.writerIndex + k; omega,
      by simp only [Block.store_length]; omega, by simpa using h.initial_le,
      by simpa using h.size_le⟩
  · simp only [hasWritten, readable]
    rw [sizeAdd_of_lt (by omega)]
    exact Block.slice_store_back hrl hk hroom

theorem append_spec {data : List Byte} (h : b.WF) (hd : data.length ≤ maxSize) :
    (∃ b', b.append data = .next b' ∧ b'.WF ∧ b'.readable = b.readable ++ data) ∨
    (b.append data = .threw b ∧
      maxSize < b.readable.length + 2 * data.length + kCheapPrepend) := by
  have hl := h.size_le; have hw := h.writer_le
  have hnw : b.writerIndex + data.length < 2 ^ 64 := by simp only [maxSize] at hl hd; omega
  unfold append
  rcases ensureWritableBytes_spec h (Or.inr hnw) with ⟨b₁, hb₁, hwf₁, hr₁, hroom⟩ | ⟨ht, hm, hs⟩
  · rw [hb₁]
    obtain ⟨b₂, hb₂, hwf₂, hr₂⟩ := storeAt_hasWritten hwf₁ hroom (Nat.le_refl data.length)
    refine Or.inl ⟨_, by rw [Outcome.andThen_next, hb₂]; rfl, hwf₂, ?_⟩
    rw [hr₂, hr₁, List.take_length]
  · rw [ht]
    exact Or.inr ⟨rfl, by omega⟩

theorem append_cheap {b b' : Buffer} {data : List Byte} (h : b.append data = .next b')
    (hr : kCheapPrepend ≤ b.readerIndex) : kCheapPrepend ≤ b'.readerIndex := by
  unfold append at h
  cases he : b.ensureWritableBytes data.length with
  | next b₁ =>
    rw [he, Outcome.andThen_next] at h
    cases hs : b₁.storeAt b₁.writerIndex data with
    | next b₂ =>
      rw [hs] at h
      cases h
      show kCheapPrepend ≤ b₂.readerIndex
      rw [(storeAt_indices hs).1]
      exact ensureWritableBytes_cheap he hr
    | threw _ => rw [hs] at h; cases h
    | fault _ => rw [hs] at h; cases h
  | threw _ | fault _ => rw [he] at h; cases h

theorem prepend_spec {data : List Byte} (h : b.WF) (hd : data.length ≤ b.prependableBytes) :
    ∃ b', b.prepend data = .next b' ∧ b'.WF ∧ b'.readable = data ++ b.readable := by
  have hl := h.length_lt; have hw := h.writer_le; have hrl := h.reader_le
  have hd' : data.length ≤ b.readerIndex := hd
  have hsub : sizeSub b.readerIndex data.length = b.readerIndex - data.length :=
    sizeSub_of_le hd' (by omega)
  rw [prepend, check_pos hd]
  simp only [hsub, storeAt]
  rw [if_pos (by omega)]
  refine ⟨_, rfl, ⟨h.cheap_le, ?_, ?_, ?_, ?_⟩, ?_⟩
  · show b.readerIndex - data.length ≤ b.writerIndex
    omega
  · simpa using hw
  · simpa using h.initial_le
  · simpa using h.size_le
  · simp only [readable]
    rw [Block.slice_store_front (by omega) hw,
      show b.readerIndex - data.length + data.length = b.readerIndex by omega]

/-- Writing at `beginWrite()` and then `hasWritten(k)`. -/
theorem write_hasWritten_spec {data : List Byte} {k : Nat} (h : b.WF)
    (hd : data.length ≤ b.writableBytes) (hk : k ≤ data.length) :
    ∃ b', b.storeAt b.writerIndex data = .next b' ∧ (b'.hasWritten k).WF ∧
      (b'.hasWritten k).readable = b.readable ++ data.take k := by
  have := h.writableBytes_eq; have := h.writer_le
  exact storeAt_hasWritten h (by omega) hk

theorem readFd_spec {data : List Byte} (h : b.WF)
    (hn : data.length ≤ b.writableBytes + extrabufSize) :
    (∃ b', b.readFd (.bytes data) = .next b' ∧ b'.WF ∧ b'.readable = b.readable ++ data) ∨
    ((∃ b', b.readFd (.bytes data) = .threw b' ∧ b'.WF) ∧
      maxSize < b.readable.length + 2 * data.length + kCheapPrepend) := by
  have hwe := h.writableBytes_eq; have hw := h.writer_le; have hl := h.length_lt
  have htake : (data.take b.writableBytes).length ≤ b.writableBytes := List.length_take_le _ _
  obtain ⟨b₁, hb₁, hwf₁, hr₁⟩ :=
    write_hasWritten_spec h htake (Nat.le_refl (data.take b.writableBytes).length)
  rw [readFd, hb₁, Outcome.andThen_next]
  have hwr := (storeAt_indices hb₁).2
  by_cases hfit : data.length ≤ b.writableBytes
  · rw [if_pos hfit]
    have hall : data.take b.writableBytes = data := List.take_of_length_le hfit
    rw [hall] at hwf₁ hr₁
    rw [List.take_length] at hr₁
    exact Or.inl ⟨_, rfl, hwf₁, hr₁⟩
  · rw [if_neg hfit]
    -- the vector is full now: its writable bytes hold the first part, `extrabuf` the rest
    have hfull : (data.take b.writableBytes).length = b.writableBytes := by simp; omega
    have heq :
        { b₁ with writerIndex := b₁.buf.length } =
          b₁.hasWritten (data.take b.writableBytes).length := by
      simp only [hasWritten, hfull]
      rw [sizeAdd_of_lt (by omega), hwr.1, hwr.2]
      congr 1; omega
    rw [heq]
    have hdrop : (data.drop b.writableBytes).length ≤ extrabufSize := by simp; omega
    have hsmall : (data.drop b.writableBytes).length ≤ maxSize :=
      Nat.le_trans hdrop (by decide)
    rw [List.take_length] at hr₁
    rcases append_spec hwf₁ hsmall with ⟨b₂, hb₂, hwf₂, hr₂⟩ | ⟨ht, hm⟩
    · refine Or.inl ⟨b₂, hb₂, hwf₂, ?_⟩
      rw [hr₂, hr₁, List.append_assoc, List.take_append_drop]
    · refine Or.inr ⟨⟨_, ht, hwf₁⟩, ?_⟩
      rw [hr₁] at hm
      simp only [List.length_append, List.length_drop] at hm
      omega

theorem toStringPiece_eq (h : b.WF) (hlt : b.readable.length < 2 ^ 31) :
    b.toStringPiece = some b.readable := by
  have hlr := h.readable_length; have := h.reader_le
  have hint : (BitVec.ofNat 32 b.readableBytes).toInt = b.readable.length := by
    rw [h.readableBytes_length, BitVec.toInt_ofNat']
    exact Int.bmod_eq_of_le (by omega) (by omega)
  simp only [toStringPiece, hint]
  rw [if_pos (by omega), Int.toNat_natCast, hlr,
    show b.readerIndex + (b.writerIndex - b.readerIndex) = b.writerIndex by omega]
  rfl

theorem shrink_spec {reserve : Nat} (h : b.WF) (hlt : b.readable.length < 2 ^ 31)
    (hnw : sizeAdd b.readable.length reserve + kCheapPrepend < 2 ^ 64) :
    (∃ b', b.shrink reserve = .next b' ∧ b'.WF ∧ b'.readable = b.readable) ∨
    b.shrink reserve = .threw b := by
  unfold shrink
  rw [toStringPiece_eq h hlt, h.readableBytes_length]
  have hd : b.readable.length ≤ maxSize := by simp only [maxSize]; omega
  obtain ⟨other, hother, hwf, hnil, hwr⟩ : ∃ other, fresh = other ∧ other.WF ∧
      other.readable = [] ∧ other.writerIndex = kCheapPrepend :=
    ⟨fresh, rfl, fresh_wf, fresh_readable, rfl⟩
  rw [hother]
  have hnw' : other.writerIndex + sizeAdd b.readable.length reserve < 2 ^ 64 := by omega
  rcases ensureWritableBytes_spec hwf (Or.inr hnw') with ⟨o₁, ho₁, hwf₁, hr₁, _⟩ | ⟨ht, _, _⟩
  · rw [ho₁, Outcome.andThen_next, appendPiece]
    rcases append_spec hwf₁ hd with ⟨o₂, ho₂, hwf₂, hr₂⟩ | ⟨ht, _⟩
    · rw [ho₂]
      exact Or.inl ⟨o₂, rfl, hwf₂, by rw [hr₂, hr₁, hnil, List.nil_append]⟩
    · rw [ht]; exact Or.inr rfl
  · rw [ht]; exact Or.inr rfl

/-- On a buffer with the indices and the size of a fresh one, `len + kCheapPrepend` wraps around
first, and the content is to be moved although it is already in place. -/
theorem ensureWritableBytes_wraps_fresh {len : Nat}
    (hr : b.readerIndex = kCheapPrepend) (hsize : b.writableBytes = kInitialSize)
    (hlen : len < 2 ^ 64) (hwrap : 2 ^ 64 ≤ len + kCheapPrepend) :
    b.ensureWritableBytes len = .fault (.assertion .readerAboveCheapPrepend) := by
  obtain ⟨n, hn⟩ := Nat.exists_eq_add_of_le hwrap
  have h8 : kCheapPrepend = 8 := rfl
  have hn8 : n < kCheapPrepend := by omega
  have hsmall : sizeAdd len kCheapPrepend = n := by
    unfold sizeAdd
    rw [hn, Nat.add_mod_left]
    exact Nat.mod_eq_of_lt (by omega)
  have hbig : b.writableBytes < len := by
    rw [hsize, show kInitialSize = 1024 from rfl]; omega
  unfold ensureWritableBytes
  rw [if_pos hbig, makeSpace, prependableBytes, hsize, hr, hsmall,
    sizeAdd_of_lt (show kInitialSize + kCheapPrepend < 2 ^ 64 by decide),
    if_neg (by omega), moveReadable, check_neg (by rw [hr]; exact Nat.lt_irrefl _)]
  rfl

theorem shrink_wraps {reserve : Nat} (h : b.WF)
    (hwrap : 2 ^ 64 ≤ sizeAdd b.readable.length reserve + kCheapPrepend) :
    b.shrink reserve = .fault (.assertion .readerAboveCheapPrepend) := by
  have hlen : sizeAdd b.readable.length reserve < 2 ^ 64 := Nat.mod_lt _ (by decide)
  unfold shrink
  rw [h.readableBytes_length, ensureWritableBytes_wraps_fresh rfl fresh_sizes.2.1 hlen hwrap]
  rfl

end Buffer
end TinyMuduo

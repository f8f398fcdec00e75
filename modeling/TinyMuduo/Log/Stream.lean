import Mathlib.Data.Nat.Digits.Lemmas
import TinyMuduo.Base.Text
import TinyMuduo.Lib.Block
import TinyMuduo.Lib.Result

/-!
# Log.Stream

`FixedBuffer` and `LogStream`: insertions into an array of fixed size. Text is copied when it leaves
a byte free behind it; a number is written right into the array when `kMaxNumericSize` bytes are
free, and `cur_` is moved behind it afterwards. An insertion that finds no room is left out.

* Every byte is written through `put` or `memcpy`, which fault outside of `data_`.
* `convert` writes the digits with the least significant one first, and turns them around. The
  remainders of a negative value are negative, and index the table on the other side of its middle.
* What `snprintf` prints for a `double` is a parameter, shorter than `kMaxNumericSize`.

`insert_eq` says what any insertion does: all or nothing.
-/

namespace TinyMuduo

open Result

namespace LogStream

inductive Fault where
  /-- A byte that is not in `data_`. -/
  | outOfData
  /-- An index outside of `digits` or `digitsHex`. -/
  | digits
  /-- The loop of a conversion goes on for longer than any integer has digits. -/
  | rounds
  /-- `length_ < sizeof buf_` -/
  | fmtLength
  /-- `strlen(str) == len_` -/
  | strlen
  /-- `us.length() == 9` -/
  | usLength
  deriving DecidableEq, Repr

def put (data : List Byte) (i : Nat) (b : Byte) : Except Fault (List Byte) :=
  if i < data.length then .ok (data.set i b) else .error .outOfData

def memcpy (data : List Byte) (i : Nat) (bytes : List Byte) : Except Fault (List Byte) :=
  if i + bytes.length ≤ data.length then .ok (Block.store data i bytes) else .error .outOfData

/-! ## Conversions -/

def digits : List Byte :=
  ascii ['9', '8', '7', '6', '5', '4', '3', '2', '1', '0',
    '1', '2', '3', '4', '5', '6', '7', '8', '9']

def digitsHex : List Byte :=
  ascii ['0', '1', '2', '3', '4', '5', '6', '7', '8', '9', 'A', 'B', 'C', 'D', 'E', 'F']

def tableAt (table : List Byte) (i : Int) : Except Fault Byte :=
  if 0 ≤ i then
    match table[i.toNat]? with
    | some c => .ok c
    | none => .error .digits
  else .error .digits

/-- `zero[lsd]`, where `zero` is `digits + 9`. -/
def zeroAt (lsd : Int) : Except Fault Byte := tableAt digits (9 + lsd)

def hexAt (lsd : Int) : Except Fault Byte := tableAt digitsHex lsd

/-- The loop of both conversions, for so many rounds. -/
def convertLoop (base : Int) (digit : Int → Except Fault Byte) :
    Nat → List Byte → Nat → Int → Except Fault (List Byte × Nat)
  | 0, _, _, _ => .error .rounds
  | n + 1, data, p, i => do
    let c ← digit (i.tmod base)
    let data ← put data p c
    if i.tdiv base ≠ 0 then convertLoop base digit n data (p + 1) (i.tdiv base)
    else .ok (data, p + 1)

/-- `*p = '\0'; std::reverse(buf, p); return p - buf;` -/
def finishConvert (data : List Byte) (buf p : Nat) : Except Fault (List Byte × Nat) := do
  let data ← put data p 0
  .ok (Block.store data buf (Block.slice data buf p).reverse, p - buf)

def convert (data : List Byte) (buf : Nat) (value : Int) : Except Fault (List Byte × Nat) := do
  let (data, p) ← convertLoop 10 zeroAt 64 data buf value
  if value < 0 then do
    let data ← put data p (chr '-')
    finishConvert data buf (p + 1)
  else finishConvert data buf p

def convertHex (data : List Byte) (buf : Nat) (value : Nat) : Except Fault (List Byte × Nat) := do
  let (data, p) ← convertLoop 16 hexAt 64 data buf value
  finishConvert data buf p

end LogStream

/-! ## The buffer -/

open LogStream

structure FixedBuffer (SIZE : Nat) where
  data : List Byte
  cur : Nat
  deriving DecidableEq, Repr

namespace FixedBuffer

variable {SIZE : Nat}

def avail (b : FixedBuffer SIZE) : Nat := SIZE - b.cur

def length (b : FixedBuffer SIZE) : Nat := b.cur

def append (b : FixedBuffer SIZE) (buf : List Byte) : Except Fault (FixedBuffer SIZE) :=
  if b.avail > buf.length then do
    let data ← memcpy b.data b.cur buf
    .ok { data := data, cur := b.cur + buf.length }
  else .ok b

/-- `*cur_ = '\0'; return data_;` -/
def debugString (b : FixedBuffer SIZE) : Except Fault (FixedBuffer SIZE) := do
  let data ← put b.data b.cur 0
  .ok { b with data := data }

/-- What `data()` and `length()` say. -/
def contents (b : FixedBuffer SIZE) : List Byte := Block.slice b.data 0 b.cur

structure WF (b : FixedBuffer SIZE) : Prop where
  size : b.data.length = SIZE
  cur_lt : b.cur < SIZE

end FixedBuffer

def kSmallBuffer : Nat := 4000

abbrev LogStream := FixedBuffer kSmallBuffer

namespace LogStream

def kMaxNumericSize : Nat := 32

def formatInteger (s : LogStream) (v : Int) : Except Fault LogStream :=
  if s.avail ≥ kMaxNumericSize then do
    let (data, len) ← convert s.data s.cur v
    .ok { data := data, cur := s.cur + len }
  else .ok s

/-- `operator<<(const void*)`. -/
def formatPointer (s : LogStream) (v : Nat) : Except Fault LogStream :=
  if s.avail ≥ kMaxNumericSize then do
    let data ← put s.data s.cur (chr '0')
    let data ← put data (s.cur + 1) (chr 'x')
    let (data, len) ← convertHex data (s.cur + 2) v
    .ok { data := data, cur := s.cur + (len + 2) }
  else .ok s

/-- `operator<<(double)`; `text` is what `"%.12g"` prints. -/
def formatDouble (s : LogStream) (text : List Byte) : Except Fault LogStream :=
  if s.avail ≥ kMaxNumericSize then do
    let data ← memcpy s.data s.cur (text.take (kMaxNumericSize - 1) ++ [0])
    .ok { data := data, cur := s.cur + text.length }
  else .ok s

inductive IntKind where
  | short
  | unsignedShort
  | int
  | unsignedInt
  | long
  | unsignedLong
  | longLong
  | unsignedLongLong
  deriving DecidableEq, Repr

namespace IntKind

def lower : IntKind → Int
  | .short => -2 ^ 15
  | .int => -2 ^ 31
  | .long | .longLong => -2 ^ 63
  | .unsignedShort | .unsignedInt | .unsignedLong | .unsignedLongLong => 0

def upper : IntKind → Int
  | .short => 2 ^ 15 - 1
  | .unsignedShort => 2 ^ 16 - 1
  | .int => 2 ^ 31 - 1
  | .unsignedInt => 2 ^ 32 - 1
  | .long | .longLong => 2 ^ 63 - 1
  | .unsignedLong | .unsignedLongLong => 2 ^ 64 - 1

end IntKind

/-- A value of an integer type. A `short` is converted to `int` first, which keeps its value. -/
structure IntValue where
  kind : IntKind
  value : Int
  lower_le : kind.lower ≤ value
  le_upper : value ≤ kind.upper
  deriving DecidableEq, Repr

/-- What `"%.12g"` prints: a sign, twelve digits, a point and an exponent at most. -/
structure DoubleText where
  text : List Byte
  short : text.length < kMaxNumericSize
  deriving DecidableEq, Repr

inductive Insertion where
  /-- `const char*`, `std::string`, `StringPiece`, `char` and `bool` -/
  | text (bytes : List Byte)
  | integer (v : IntValue)
  | pointer (v : BitVec 64)
  | double (v : DoubleText)
  /-- a `Fmt` that prints these bytes -/
  | fmt (bytes : List Byte)
  deriving DecidableEq, Repr

def insert (s : LogStream) : Insertion → Except Fault LogStream
  | .text bytes => s.append bytes
  | .integer v => s.formatInteger v.value
  | .pointer v => s.formatPointer v.toNat
  | .double v => s.formatDouble v.text
  | .fmt bytes => do
    ensure (bytes.length < 32) .fmtLength
    s.append bytes

def insertAll (s : LogStream) : List Insertion → Except Fault LogStream
  | [] => .ok s
  | i :: is => do
    let s ← s.insert i
    insertAll s is

/-! ## What an insertion writes -/

/-- The digits of a number, least significant first; there is always one. -/
def lsdFirst (base n : Nat) : List Nat := n % base :: Nat.digits base (n / base)

def digitByte (d : Nat) : Byte := chr (Nat.digitChar d)

def hexByte (d : Nat) : Byte := chr (Nat.digitChar d).toUpper

def intText (v : Int) : List Byte :=
  (if v < 0 then [chr '-'] else []) ++ ((lsdFirst 10 v.natAbs).map digitByte).reverse

def hexText (v : Nat) : List Byte := ((lsdFirst 16 v).map hexByte).reverse

def Insertion.rendering : Insertion → List Byte
  | .text bytes => bytes
  | .integer v => intText v.value
  | .pointer v => chr '0' :: chr 'x' :: hexText v.toNat
  | .double v => v.text
  | .fmt bytes => bytes

/-- The room an insertion asks for. -/
def Insertion.Room (avail : Nat) : Insertion → Prop
  | .text bytes => bytes.length < avail
  | .integer _ => kMaxNumericSize ≤ avail
  | .pointer _ => kMaxNumericSize ≤ avail
  | .double _ => kMaxNumericSize ≤ avail
  | .fmt bytes => bytes.length < avail

instance (avail : Nat) : (i : Insertion) → Decidable (i.Room avail)
  | .text bytes => inferInstanceAs (Decidable (bytes.length < avail))
  | .integer _ => inferInstanceAs (Decidable (kMaxNumericSize ≤ avail))
  | .pointer _ => inferInstanceAs (Decidable (kMaxNumericSize ≤ avail))
  | .double _ => inferInstanceAs (Decidable (kMaxNumericSize ≤ avail))
  | .fmt bytes => inferInstanceAs (Decidable (bytes.length < avail))

/-- What an insertion leaves behind `cur_`. -/
def Insertion.terminator : Insertion → List Byte
  | .text _ | .fmt _ => []
  | .integer _ | .pointer _ | .double _ => [0]

/-- The assertion in the constructor of `Fmt`. -/
def Insertion.Constructed : Insertion → Prop
  | .fmt bytes => bytes.length < 32
  | .text _ | .integer _ | .pointer _ | .double _ => True

instance : (i : Insertion) → Decidable i.Constructed
  | .fmt bytes => inferInstanceAs (Decidable (bytes.length < 32))
  | .text _ | .integer _ | .pointer _ | .double _ => inferInstanceAs (Decidable True)

/-- The stream after an insertion. -/
def after (s : LogStream) (i : Insertion) : LogStream :=
  if i.Room s.avail then
    ⟨Block.store s.data s.cur (i.rendering ++ i.terminator), s.cur + i.rendering.length⟩
  else s

/-! ## Digits -/

theorem lsdFirst_of_pos {base n : Nat} (hb : 1 < base) (hn : 0 < n) :
    lsdFirst base n = Nat.digits base n := (Nat.digits_def' hb hn).symm

theorem length_lsdFirst_le {base n k : Nat} (hb : 1 < base) (h : n < base ^ (k + 1)) :
    (lsdFirst base n).length ≤ k + 1 := by
  rw [lsdFirst, List.length_cons, Nat.add_le_add_iff_right, Nat.digits_length_le_iff hb,
    Nat.div_lt_iff_lt_mul (by omega), ← Nat.pow_succ]
  exact h

theorem zeroAt_eq {lsd : Int} (h : lsd.natAbs < 10) : zeroAt lsd = .ok (digitByte lsd.natAbs) := by
  have hlow : -9 ≤ lsd := by omega
  have hhigh : lsd ≤ 9 := by omega
  interval_cases lsd <;> rfl

theorem hexAt_eq {lsd : Int} (h0 : 0 ≤ lsd) (h : lsd.natAbs < 16) :
    hexAt lsd = .ok (hexByte lsd.natAbs) := by
  have hhigh : lsd ≤ 15 := by omega
  interval_cases lsd <;> rfl

theorem put_eq {data : List Byte} {i : Nat} (h : i < data.length) (b : Byte) :
    put data i b = .ok (data.set i b) := if_pos h

/-- One round of the loop: the last digit is written, and the other ones are left. -/
theorem convertLoop_succ {base : Nat} (hb : 1 < base) {digit : Int → Except Fault Byte}
    {f : Nat → Byte} {n : Nat} {data : List Byte} {p : Nat} {i : Int}
    (hdigit : ∀ k : Int, (0 ≤ i → 0 ≤ k) → k.natAbs < base → digit k = .ok (f k.natAbs))
    (hp : p < data.length) :
    convertLoop base digit (n + 1) data p i =
      if i.natAbs / base = 0 then .ok (data.set p (f (i.natAbs % base)), p + 1)
      else convertLoop base digit n (data.set p (f (i.natAbs % base))) (p + 1) (i.tdiv base) := by
  have hmod : (i.tmod base).natAbs = i.natAbs % base := Int.natAbs_tmod i base
  have hdiv : (i.tdiv base).natAbs = i.natAbs / base := Int.natAbs_tdiv i base
  have hlt : (i.tmod base).natAbs < base := hmod ▸ Nat.mod_lt _ (by omega)
  rw [convertLoop, hdigit _ (fun h0 => Int.tmod_nonneg _ h0) hlt, ok_bind, put_eq hp, ok_bind, hmod]
  by_cases h0 : i.natAbs / base = 0
  · rw [if_pos h0, if_neg (not_not.2 (Int.natAbs_eq_zero.1 (hdiv.trans h0)))]
  · rw [if_neg h0, if_pos fun hzero => h0 (hdiv.symm.trans (Int.natAbs_eq_zero.2 hzero))]

/-- The loop writes the digits, one after the other. -/
theorem convertLoop_eq {base : Nat} (hb : 1 < base) {digit : Int → Except Fault Byte}
    {f : Nat → Byte} {n : Nat} {data : List Byte} {p : Nat} {i : Int} {ds : List Byte}
    (hdigit : ∀ k : Int, (0 ≤ i → 0 ≤ k) → k.natAbs < base → digit k = .ok (f k.natAbs))
    (hn : i.natAbs < base ^ n) (hds : (lsdFirst base i.natAbs).map f = ds)
    (hp : p + ds.length ≤ data.length) :
    convertLoop base digit (n + 1) data p i = .ok (Block.store data p ds, p + ds.length) := by
  subst hds
  induction n generalizing data p i with
  | zero =>
    rw [lsdFirst, List.map_cons, List.length_cons] at hp
    have hzero : i.natAbs / base = 0 := by
      rw [Nat.pow_zero, Nat.lt_one_iff] at hn
      rw [hn, Nat.zero_div]
    rw [convertLoop_succ hb hdigit (by omega), if_pos hzero, lsdFirst, hzero, Nat.digits_zero]
    rfl
  | succ n ih =>
    rw [lsdFirst, List.map_cons, List.length_cons] at hp
    rw [convertLoop_succ hb hdigit (by omega)]
    by_cases hzero : i.natAbs / base = 0
    · rw [if_pos hzero, lsdFirst, hzero, Nat.digits_zero]
      rfl
    · have hdiv : (i.tdiv base).natAbs = i.natAbs / base := Int.natAbs_tdiv i base
      have hdigits := lsdFirst_of_pos hb (Nat.pos_of_ne_zero hzero)
      rw [if_neg hzero, ih, hdiv, hdigits, lsdFirst, List.map_cons, Block.store, List.length_cons,
        Nat.add_assoc, Nat.add_comm 1]
      · exact fun k hk => hdigit k fun h0 => hk (Int.tdiv_nonneg h0 (Int.natCast_nonneg base))
      · rw [hdiv, Nat.div_lt_iff_lt_mul (by omega), ← Nat.pow_succ]
        exact hn
      · rw [hdiv, hdigits, List.length_set]
        omega

/-- What stands from `buf` on is turned around, in front of the terminating zero. -/
theorem finishConvert_eq (data : List Byte) (buf : Nat) (rev : List Byte)
    (h : buf + rev.length < data.length) :
    finishConvert (Block.store data buf rev) buf (buf + rev.length) =
      .ok (Block.store data buf (rev.reverse ++ [0]), rev.length) := by
  have hput : (Block.store data buf rev).set (buf + rev.length) 0 =
      Block.store data buf (rev ++ [0]) := (Block.store_append data buf rev [0]).symm
  have hroom : buf + (rev ++ [0]).length ≤ data.length := by
    rw [List.length_append]
    exact h
  have hback : Block.slice (Block.store data buf (rev ++ [0])) buf (buf + rev.length) = rev := by
    rw [Block.slice_store_back (Nat.le_refl _) (by simp) hroom, Block.slice_self,
      List.take_left, List.nil_append]
  rw [finishConvert, put_eq (by rw [Block.store_length]; exact h), ok_bind, hput, hback,
    Block.store_store_front List.length_reverse hroom, Nat.add_sub_cancel_left]

theorem length_intText_le {v : Int} (h : v.natAbs < 10 ^ 20) : (intText v).length ≤ 21 := by
  have hlen := length_lsdFirst_le (k := 19) (show 1 < 10 by decide) h
  rw [intText, List.length_append, List.length_reverse, List.length_map]
  split <;> simp only [List.length_cons, List.length_nil] <;> omega

/-- `convert` writes the text and a terminating zero, and changes nothing else. -/
theorem convert_eq {data : List Byte} {buf : Nat} {v : Int} (hv : v.natAbs < 10 ^ 20)
    (h : buf + 22 ≤ data.length) :
    convert data buf v = .ok (Block.store data buf (intText v ++ [0]), (intText v).length) := by
  obtain ⟨ds, hds⟩ : ∃ ds, (lsdFirst 10 v.natAbs).map digitByte = ds := ⟨_, rfl⟩
  have hlen : ds.length ≤ 20 := by
    rw [← hds, List.length_map]
    exact length_lsdFirst_le (by decide) hv
  have hloop : convertLoop 10 zeroAt 64 data buf v =
      .ok (Block.store data buf ds, buf + ds.length) :=
    convertLoop_eq (show 1 < 10 by decide) (fun _ _ => zeroAt_eq) (hv.trans (by decide)) hds
      (by omega)
  rw [convert, hloop, ok_bind]
  dsimp only
  rw [intText, hds]
  split_ifs with hneg
  · -- the sign is written behind the digits
    have hsign : (Block.store data buf ds).set (buf + ds.length) (chr '-') =
        Block.store data buf (ds ++ [chr '-']) := (Block.store_append data buf ds [chr '-']).symm
    have hsigned : (ds ++ [chr '-']).length = ds.length + 1 := List.length_append
    have hfinish := finishConvert_eq data buf (ds ++ [chr '-']) (by omega)
    rw [hsigned, List.reverse_append] at hfinish
    rw [put_eq (by rw [Block.store_length]; omega), ok_bind, hsign, List.length_append,
      List.length_reverse, Nat.add_comm [chr '-'].length]
    exact hfinish
  · rw [List.nil_append, List.length_reverse]
    exact finishConvert_eq data buf ds (by omega)

theorem length_hexText_le {v : Nat} (h : v < 16 ^ 16) : (hexText v).length ≤ 16 := by
  rw [hexText, List.length_reverse, List.length_map]
  exact length_lsdFirst_le (k := 15) (by decide) h

theorem convertHex_eq {data : List Byte} {buf v : Nat} (hv : v < 16 ^ 16)
    (h : buf + 17 ≤ data.length) :
    convertHex data buf v = .ok (Block.store data buf (hexText v ++ [0]), (hexText v).length) := by
  obtain ⟨ds, hds⟩ : ∃ ds, (lsdFirst 16 v).map hexByte = ds := ⟨_, rfl⟩
  have hlen : ds.length ≤ 16 := by
    rw [← hds, List.length_map]
    exact length_lsdFirst_le (by decide) hv
  have hloop : convertLoop 16 hexAt 64 data buf v =
      .ok (Block.store data buf ds, buf + ds.length) :=
    convertLoop_eq (i := v) (show 1 < 16 by decide)
      (fun _ hk => hexAt_eq (hk (Int.natCast_nonneg v))) (hv.trans (by decide)) hds (by omega)
  rw [convertHex, hloop, ok_bind, hexText, hds, List.length_reverse]
  exact finishConvert_eq data buf ds (by omega)

end LogStream

/-! ## All or nothing -/

namespace FixedBuffer

variable {SIZE : Nat} {b : FixedBuffer SIZE}

theorem WF.length_contents (h : b.WF) : b.contents.length = b.cur := by
  have := h.size
  have := h.cur_lt
  rw [contents, Block.slice_length (by omega), Nat.sub_zero]

/-- What `cur_` is moved over has been written; the bytes of `tail` are left behind it. -/
theorem written (h : b.WF) (text tail : List Byte) (hlen : text.length < b.avail)
    (hfits : (text ++ tail).length ≤ b.avail) :
    (⟨Block.store b.data b.cur (text ++ tail), b.cur + text.length⟩ : FixedBuffer SIZE).WF ∧
      (⟨Block.store b.data b.cur (text ++ tail), b.cur + text.length⟩ : FixedBuffer SIZE).contents =
        b.contents ++ text := by
  have hsize := h.size
  have hcur := h.cur_lt
  rw [avail] at hlen hfits
  refine ⟨⟨(Block.store_length _ _ _).trans hsize, ?_⟩, ?_⟩
  · show b.cur + text.length < SIZE
    omega
  · show Block.slice (Block.store b.data b.cur (text ++ tail)) 0 (b.cur + text.length) = _
    rw [Block.slice_store_back (Nat.zero_le _) (by simp) (by omega), List.take_left, contents]

/-- There is always a byte for the zero of `debugString`. -/
theorem debugString_spec (h : b.WF) :
    ∃ b', b.debugString = .ok b' ∧ b'.WF ∧ b'.contents = b.contents := by
  have hsize := h.size
  have hcur := h.cur_lt
  have hfree : 0 < b.avail := Nat.sub_pos_of_lt hcur
  have hwritten := written h [] [0] hfree hfree
  rw [List.append_nil] at hwritten
  refine ⟨_, ?_, hwritten⟩
  rw [debugString, put_eq (by omega), ok_bind]
  rfl

theorem append_eq (h : b.WF) (buf : List Byte) :
    b.append buf = .ok (if buf.length < b.avail then
      ⟨Block.store b.data b.cur buf, b.cur + buf.length⟩ else b) := by
  have hsize := h.size
  rw [append]
  split_ifs with hroom
  · rw [avail] at hroom
    rw [memcpy, if_pos (by omega), ok_bind]
  · rfl

theorem append_spec (h : b.WF) (buf : List Byte) :
    ∃ b', b.append buf = .ok b' ∧ b'.WF ∧
      b'.contents = if buf.length < b.avail then b.contents ++ buf else b.contents := by
  refine ⟨_, append_eq h buf, ?_⟩
  split_ifs with hroom
  · have hwritten := written h buf [] hroom (by rw [List.append_nil]; omega)
    rw [List.append_nil] at hwritten
    exact hwritten
  · exact ⟨h, rfl⟩

end FixedBuffer

namespace LogStream

variable {s : LogStream}

/-- A stream right after its constructor, or after `resetBuffer()`. -/
theorem wf_new {data : List Byte} (h : data.length = kSmallBuffer) : (⟨data, 0⟩ : LogStream).WF :=
  ⟨h, show 0 < kSmallBuffer by decide⟩

theorem IntValue.natAbs_lt (v : IntValue) : v.value.natAbs < 10 ^ 20 := by
  have hlow : -2 ^ 63 ≤ v.kind.lower := by cases v.kind <;> decide
  have hupp : v.kind.upper ≤ 2 ^ 64 - 1 := by cases v.kind <;> decide
  have := v.lower_le
  have := v.le_upper
  omega

theorem free_of_avail (h : s.WF) (hroom : s.avail ≥ kMaxNumericSize) :
    s.cur + 32 ≤ s.data.length := by
  have := h.size
  rw [FixedBuffer.avail, kMaxNumericSize] at hroom
  omega

theorem after_of_room (i : Insertion) (h : i.Room s.avail) : s.after i =
    ⟨Block.store s.data s.cur (i.rendering ++ i.terminator), s.cur + i.rendering.length⟩ := if_pos h

theorem after_of_full (i : Insertion) (h : ¬ i.Room s.avail) : s.after i = s := if_neg h

theorem append_eq_after (h : s.WF) (bytes : List Byte) :
    s.append bytes = .ok (s.after (.text bytes)) := by
  rw [FixedBuffer.append_eq h]
  by_cases hroom : bytes.length < s.avail
  · rw [if_pos hroom, after_of_room (.text bytes) hroom, Insertion.rendering, Insertion.terminator,
      List.append_nil]
  · rw [if_neg hroom, after_of_full (.text bytes) hroom]

theorem formatInteger_eq (h : s.WF) (v : IntValue) :
    s.formatInteger v.value = .ok (s.after (.integer v)) := by
  by_cases hroom : kMaxNumericSize ≤ s.avail
  · have hfree := free_of_avail h hroom
    rw [formatInteger, if_pos hroom, convert_eq v.natAbs_lt (by omega), ok_bind,
      after_of_room (.integer v) hroom]
    rfl
  · rw [formatInteger, if_neg hroom, after_of_full (.integer v) hroom]

theorem formatPointer_eq (h : s.WF) (v : BitVec 64) :
    s.formatPointer v.toNat = .ok (s.after (.pointer v)) := by
  by_cases hroom : kMaxNumericSize ≤ s.avail
  · have hv : v.toNat < 16 ^ 16 := v.isLt
    have hfree := free_of_avail h hroom
    -- the two characters in front of the digits
    have hput : (s.data.set s.cur (chr '0')).set (s.cur + 1) (chr 'x') =
        Block.store s.data s.cur [chr '0', chr 'x'] := rfl
    have hbuf : s.cur + 2 + 17 ≤ (Block.store s.data s.cur [chr '0', chr 'x']).length := by
      rw [Block.store_length]
      omega
    rw [formatPointer, if_pos hroom, put_eq (by omega), ok_bind,
      put_eq (by rw [List.length_set]; omega), ok_bind, hput, convertHex_eq hv hbuf, ok_bind,
      after_of_room (.pointer v) hroom]
    rfl
  · rw [formatPointer, if_neg hroom, after_of_full (.pointer v) hroom]

theorem formatDouble_eq (h : s.WF) (v : DoubleText) :
    s.formatDouble v.text = .ok (s.after (.double v)) := by
  by_cases hroom : kMaxNumericSize ≤ s.avail
  · have hshort : v.text.length < 32 := v.short
    have hfree := free_of_avail h hroom
    have htake : v.text.take (kMaxNumericSize - 1) = v.text :=
      List.take_of_length_le (by rw [kMaxNumericSize]; omega)
    have hfits : s.cur + (v.text ++ [0]).length ≤ s.data.length := by
      rw [List.length_append, List.length_singleton]
      omega
    rw [formatDouble, if_pos hroom, htake, memcpy, if_pos hfits, ok_bind,
      after_of_room (.double v) hroom]
    rfl
  · rw [formatDouble, if_neg hroom, after_of_full (.double v) hroom]

/-- **An insertion is all or nothing**: it writes what it prints when there is room for it, and
nothing otherwise. -/
theorem insert_eq (h : s.WF) (i : Insertion) :
    s.insert i = if i.Constructed then .ok (s.after i) else .error .fmtLength := by
  cases i with
  | text bytes => exact append_eq_after h bytes
  | integer v => exact formatInteger_eq h v
  | pointer v => exact formatPointer_eq h v
  | double v => exact formatDouble_eq h v
  | fmt bytes =>
    rw [insert]
    by_cases hlen : bytes.length < 32
    · rw [ensure_pos hlen, ok_bind, append_eq_after h]
      exact (if_pos hlen).symm
    · rw [ensure_neg hlen, error_bind]
      exact (if_neg hlen).symm

/-- The room asked for is enough, with a byte left over. -/
theorem Insertion.Room.fits {i : Insertion} {avail : Nat} (h : i.Room avail) :
    i.rendering.length < avail ∧ (i.rendering ++ i.terminator).length ≤ avail := by
  cases i with
  | text bytes | fmt bytes => exact ⟨h, by rw [List.length_append]; exact Nat.le_of_lt h⟩
  | integer v =>
    have hlen := length_intText_le v.natAbs_lt
    change 32 ≤ avail at h
    rw [List.length_append]
    exact ⟨show (intText v.value).length < avail by omega,
      show (intText v.value).length + 1 ≤ avail by omega⟩
  | pointer v =>
    have hlen := length_hexText_le (show v.toNat < 16 ^ 16 from v.isLt)
    change 32 ≤ avail at h
    rw [List.length_append]
    exact ⟨show (hexText v.toNat).length + 2 < avail by omega,
      show (hexText v.toNat).length + 2 + 1 ≤ avail by omega⟩
  | double v =>
    have hlen : v.text.length < 32 := v.short
    change 32 ≤ avail at h
    rw [List.length_append]
    exact ⟨show v.text.length < avail by omega, show v.text.length + 1 ≤ avail by omega⟩

theorem after_spec (h : s.WF) (i : Insertion) : (s.after i).WF ∧ (s.after i).contents =
    if i.Room s.avail then s.contents ++ i.rendering else s.contents := by
  split_ifs with hroom
  · rw [after_of_room i hroom]
    exact FixedBuffer.written h _ _ hroom.fits.1 hroom.fits.2
  · rw [after_of_full i hroom]
    exact ⟨h, rfl⟩

/-- What a stream has after an insertion, by what it had before. -/
def absorb (contents : List Byte) (i : Insertion) : List Byte :=
  if i.Room (kSmallBuffer - contents.length) then contents ++ i.rendering else contents

theorem insertAll_append (s : LogStream) (is js : List Insertion) :
    s.insertAll (is ++ js) = s.insertAll is >>= fun s' => s'.insertAll js := by
  induction is generalizing s with
  | nil => rfl
  | cons i is ih =>
    rw [List.cons_append, insertAll, insertAll]
    cases s.insert i with
    | error e => rfl
    | ok s' => exact ih s'

/-- Any insertions: they are done one after the other, unless an assertion of `Fmt` fails. -/
theorem insertAll_eq_ite (h : s.WF) (is : List Insertion) : s.insertAll is =
    if ∀ i ∈ is, i.Constructed then .ok (is.foldl after s) else .error .fmtLength := by
  induction is generalizing s with
  | nil => simp [insertAll]
  | cons i is ih =>
    rw [insertAll, insert_eq h i, List.foldl_cons]
    by_cases hi : i.Constructed
    · rw [if_pos hi, ok_bind, ih (after_spec h i).1]
      simp [hi]
    · rw [if_neg hi, error_bind, if_neg fun hall => hi (hall i List.mem_cons_self)]

theorem foldl_after_spec (h : s.WF) (is : List Insertion) :
    (is.foldl after s).WF ∧ (is.foldl after s).contents = is.foldl absorb s.contents := by
  induction is generalizing s with
  | nil => exact ⟨h, rfl⟩
  | cons i is ih =>
    obtain ⟨hwf, hc⟩ := after_spec h i
    rw [List.foldl_cons, List.foldl_cons, absorb, h.length_contents, ← FixedBuffer.avail, ← hc]
    exact ih hwf

theorem insertAll_spec (h : s.WF) {is : List Insertion} {s' : LogStream}
    (hx : s.insertAll is = .ok s') : s'.WF ∧ s'.contents = is.foldl absorb s.contents := by
  rw [insertAll_eq_ite h] at hx
  split_ifs at hx
  cases hx
  exact foldl_after_spec h is

/-- Without `Fmt` nothing can fail. -/
theorem insertAll_ok (h : s.WF) {is : List Insertion} (hfmt : ∀ bytes, .fmt bytes ∉ is) :
    ∃ s', s.insertAll is = .ok s' ∧ s'.WF ∧ s'.contents = is.foldl absorb s.contents := by
  refine ⟨_, (insertAll_eq_ite h is).trans (if_pos ?_), foldl_after_spec h is⟩
  intro i hi
  cases i with
  | fmt bytes => exact absurd hi (hfmt bytes)
  | text _ | integer _ | pointer _ | double _ => trivial

end LogStream
end TinyMuduo

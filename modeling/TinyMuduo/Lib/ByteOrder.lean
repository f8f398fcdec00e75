import Mathlib.Algebra.Order.Ring.Int
import Mathlib.Data.List.Basic
import Mathlib.Data.Nat.Basic

/-!
# Lib.ByteOrder

Fixed-width integers in memory. A value is a `BitVec`; its memory image depends on the byte order
of the host. `byteSwap` reverses the order of the bytes of a value, and `image_little_byteSwap`
says that the little-endian image of the swapped value is the big-endian image of the value, which
is the two's complement representation of its signed value (`image_big_toInt`).
-/

abbrev Byte := BitVec 8

inductive ByteOrder where
  | little
  | big
  deriving DecidableEq, Repr

namespace ByteOrder

/-- The `k` low bytes of `x`, least significant first. -/
def leBytes {w : Nat} (k : Nat) (x : BitVec w) : List Byte :=
  (List.range k).map fun i => x.extractLsb' (8 * i) 8

/-- The value whose bytes are `bs`, least significant first. -/
def ofLeBytes (w : Nat) : List Byte → BitVec w
  | [] => 0#w
  | b :: bs => (ofLeBytes w bs <<< 8) ||| b.setWidth w

/-- The memory image of a `k`-byte integer. -/
def image {w : Nat} (k : Nat) (x : BitVec w) : ByteOrder → List Byte
  | little => leBytes k x
  | big => (leBytes k x).reverse

/-- The integer whose memory image is `bs`. -/
def ofImage (w : Nat) (bs : List Byte) : ByteOrder → BitVec w
  | little => ofLeBytes w bs
  | big => ofLeBytes w bs.reverse

def byteSwap {w : Nat} (k : Nat) (x : BitVec w) : BitVec w := ofLeBytes w (leBytes k x).reverse

@[simp] theorem leBytes_length {w : Nat} (k : Nat) (x : BitVec w) :
    (leBytes k x).length = k := by
  simp [leBytes]

@[simp] theorem image_length {w : Nat} (k : Nat) (x : BitVec w) (o : ByteOrder) :
    (image k x o).length = k := by
  cases o <;> simp [image]

theorem ofLeBytes_getLsbD {w : Nat} (bs : List Byte) :
    ∀ j, j < w → (ofLeBytes w bs).getLsbD j = (bs.getD (j / 8) 0).getLsbD (j % 8) := by
  induction bs with
  | nil => intro j _; simp [ofLeBytes]
  | cons b bs ih =>
    intro j hj
    simp only [ofLeBytes, BitVec.getLsbD_or, BitVec.getLsbD_shiftLeft, BitVec.getLsbD_setWidth]
    by_cases h8 : j < 8
    · have hdiv : j / 8 = 0 := by omega
      have hmod : j % 8 = j := by omega
      simp [h8, hj, hdiv, hmod]
    · have hdiv : j / 8 = (j - 8) / 8 + 1 := by omega
      have hmod : j % 8 = (j - 8) % 8 := by omega
      have hb : b.getLsbD j = false := BitVec.getLsbD_of_ge b j (by omega)
      rw [ih (j - 8) (by omega), hdiv, hmod]
      simp [h8, hj, hb]

theorem leBytes_ofLeBytes {w : Nat} (bs : List Byte) (h : 8 * bs.length ≤ w) :
    leBytes bs.length (ofLeBytes w bs) = bs := by
  apply List.ext_getElem
  · simp
  · intro i hi hi'
    simp only [leBytes, List.getElem_map, List.getElem_range]
    apply BitVec.eq_of_getLsbD_eq
    intro j hj
    rw [BitVec.getLsbD_extractLsb', ofLeBytes_getLsbD bs _ (by omega)]
    have hdiv : (8 * i + j) / 8 = i := by omega
    have hmod : (8 * i + j) % 8 = j := by omega
    rw [hdiv, hmod]
    simp [hj, List.getD_eq_getElem?_getD, List.getElem?_eq_getElem hi']

theorem image_little_byteSwap {w : Nat} (k : Nat) (x : BitVec w) (h : 8 * k ≤ w) :
    image k (byteSwap k x) little = image k x big := by
  have := leBytes_ofLeBytes (w := w) (leBytes k x).reverse (by simpa using h)
  simpa [image, byteSwap] using this

theorem byteSwap_ofImage_little {w : Nat} (bs : List Byte) (h : 8 * bs.length ≤ w) :
    byteSwap bs.length (ofImage w bs little) = ofImage w bs big := by
  rw [byteSwap, ofImage, leBytes_ofLeBytes bs h]
  rfl

theorem ofLeBytes_leBytes {w : Nat} (k : Nat) (x : BitVec w) (h : w ≤ 8 * k) :
    ofLeBytes w (leBytes k x) = x := by
  apply BitVec.eq_of_getLsbD_eq
  intro j hj
  have hk : j / 8 < k := by omega
  rw [ofLeBytes_getLsbD _ j hj]
  simp only [leBytes, List.getD_eq_getElem?_getD, List.getElem?_map,
    List.getElem?_range hk, Option.map_some, Option.getD_some, BitVec.getLsbD_extractLsb']
  have hmod : j % 8 < 8 := Nat.mod_lt _ (by decide)
  have hsum : 8 * (j / 8) + j % 8 = j := by omega
  simp [hmod, hsum]

theorem ofImage_image {w : Nat} (k : Nat) (x : BitVec w) (h : w ≤ 8 * k) (o : ByteOrder) :
    ofImage w (image k x o) o = x := by
  cases o with
  | little => exact ofLeBytes_leBytes k x h
  | big =>
    rw [ofImage, image, List.reverse_reverse]
    exact ofLeBytes_leBytes k x h

theorem image_ofImage {w : Nat} (bs : List Byte) (h : 8 * bs.length ≤ w) (o : ByteOrder) :
    image bs.length (ofImage w bs o) o = bs := by
  cases o with
  | little => exact leBytes_ofLeBytes bs h
  | big =>
    have := leBytes_ofLeBytes (w := w) bs.reverse (by simpa using h)
    rw [List.length_reverse] at this
    rw [image, ofImage, this, List.reverse_reverse]

/-- The two's complement representation of `v` in `k` bytes, most significant first. -/
def twosComplement (k : Nat) (v : Int) : List Byte :=
  (List.range k).map fun i => BitVec.ofInt 8 (v / 2 ^ (8 * (k - 1 - i)))

theorem ofInt_div_pow {w : Nat} (x : BitVec w) {s : Nat} (h : s + 8 ≤ w) :
    BitVec.ofInt 8 (x.toInt / 2 ^ s) = x.extractLsb' s 8 := by
  have hshift : x.toInt / 2 ^ s = (x.sshiftRight s).toInt := by
    rw [BitVec.toInt_sshiftRight, Int.shiftRight_eq_div_pow]
    norm_cast
  rw [hshift, ← BitVec.signExtend, BitVec.signExtend_eq_setWidth_of_le _ (by omega)]
  apply BitVec.eq_of_getLsbD_eq
  intro i hi
  rw [BitVec.getLsbD_setWidth, BitVec.getLsbD_sshiftRight, BitVec.getLsbD_extractLsb',
    if_pos (by omega)]
  simp [hi, show ¬ w ≤ i by omega]

/-- The big-endian image of a value is the two's complement representation of its signed value. -/
theorem image_big_toInt {w : Nat} (k : Nat) (x : BitVec w) (h : 8 * k ≤ w) :
    image k x big = twosComplement k x.toInt := by
  apply List.ext_getElem
  · simp [image, twosComplement]
  · intro i hi hi'
    have hik : i < k := by simpa using hi
    simp only [image, twosComplement, leBytes, List.getElem_reverse, List.getElem_map,
      List.getElem_range, List.length_map, List.length_range]
    rw [ofInt_div_pow x (by omega)]

end ByteOrder

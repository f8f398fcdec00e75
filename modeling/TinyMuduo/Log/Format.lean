import TinyMuduo.Lib.Numeral
import TinyMuduo.Log.Stream

/-!
# Log.Format

What a `LogStream` holds, said without the code that writes it.

* `IsDecimal` and `IsHex` say which texts are canonical, by the digits and the value they have.
  `convert_canonical` says that `convert` and `convertHex` write exactly these texts.
* `found` picks the insertions that find room. `insertAll_contents` says that what they print is all
  a stream ever holds, and that no insertion writes outside of `data_`.
-/

namespace TinyMuduo
namespace LogStream

open Result

/-! ## Canonical texts -/

/-- A sign for the negative numbers only, and no zero in front of other digits. -/
inductive IsDecimal : Int → List Byte → Prop
  | nonneg {n : Nat} {ds : List Nat} (h : IsNumeral 10 ds n) : IsDecimal n (ds.map digitByte)
  | neg {n : Nat} {ds : List Nat} (hn : 0 < n) (h : IsNumeral 10 ds n) :
      IsDecimal (-n) (chr '-' :: ds.map digitByte)

def IsHex (n : Nat) (text : List Byte) : Prop :=
  ∃ ds, IsNumeral 16 ds n ∧ text = ds.map hexByte

theorem intText_natCast (n : Nat) : intText n = (numeral 10 n).map digitByte := by
  rw [intText, if_neg (by omega), List.nil_append, numeral, List.map_reverse]
  rfl

theorem intText_neg {n : Nat} (hn : 0 < n) :
    intText (-n) = chr '-' :: (numeral 10 n).map digitByte := by
  rw [intText, if_pos (by omega), Int.natAbs_neg, numeral, List.map_reverse]
  rfl

theorem isDecimal_iff {v : Int} {text : List Byte} : IsDecimal v text ↔ text = intText v := by
  constructor
  · intro h
    cases h with
    | nonneg h => rw [(isNumeral_iff (by decide)).1 h, intText_natCast]
    | neg hn h => rw [(isNumeral_iff (by decide)).1 h, intText_neg hn]
  · rintro rfl
    rcases lt_or_ge v 0 with hv | hv
    · obtain ⟨n, rfl⟩ : ∃ n : Nat, v = -n := ⟨v.natAbs, by omega⟩
      have hn : 0 < n := by omega
      rw [intText_neg hn]
      exact .neg hn ((isNumeral_iff (by decide)).2 rfl)
    · obtain ⟨n, rfl⟩ := Int.eq_ofNat_of_zero_le hv
      rw [intText_natCast]
      exact .nonneg ((isNumeral_iff (by decide)).2 rfl)

theorem isHex_iff {n : Nat} {text : List Byte} : IsHex n text ↔ text = hexText n := by
  have htext : hexText n = (numeral 16 n).map hexByte := by
    rw [hexText, numeral, List.map_reverse]
    rfl
  rw [htext]
  constructor
  · rintro ⟨ds, hds, rfl⟩
    rw [(isNumeral_iff (by decide)).1 hds]
  · intro h
    exact ⟨_, (isNumeral_iff (by decide)).2 rfl, h⟩

/-- **Integers are formatted exactly.** `convert` writes the one canonical decimal text of any value
of any integer type, and `convertHex`, behind the prefix, the one canonical hexadecimal text of any
pointer. With the terminating zero that takes `kMaxNumericSize` bytes at most, and no other byte is
changed. -/
theorem convert_canonical {data : List Byte} {buf : Nat}
    (h : buf + kMaxNumericSize ≤ data.length) :
    (∀ v : IntValue, ∃ text, IsDecimal v.value text ∧ (∀ t, IsDecimal v.value t → t = text) ∧
      text.length + 1 ≤ kMaxNumericSize ∧
      convert data buf v.value = .ok (Block.store data buf (text ++ [0]), text.length)) ∧
    ∀ p : BitVec 64, ∃ text, IsHex p.toNat text ∧ (∀ t, IsHex p.toNat t → t = text) ∧
      2 + text.length + 1 ≤ kMaxNumericSize ∧
      convertHex data (buf + 2) p.toNat =
        .ok (Block.store data (buf + 2) (text ++ [0]), text.length) := by
  rw [kMaxNumericSize] at h ⊢
  constructor
  · intro v
    have hlen := length_intText_le v.natAbs_lt
    exact ⟨intText v.value, isDecimal_iff.2 rfl, fun t => isDecimal_iff.1, by omega,
      convert_eq v.natAbs_lt (by omega)⟩
  · intro p
    have hp : p.toNat < 16 ^ 16 := p.isLt
    have hlen := length_hexText_le hp
    exact ⟨hexText p.toNat, isHex_iff.2 rfl, fun t => isHex_iff.1, by omega,
      convertHex_eq hp (by omega)⟩

theorem IntKind.lower_le_upper (k : IntKind) : k.lower ≤ k.upper := by
  cases k <;> decide

/-- The smallest value of a type. -/
def IntKind.min (k : IntKind) : IntValue := ⟨k, k.lower, le_refl _, k.lower_le_upper⟩

/-- `LLONG_MIN`, whose negative is no `long long`. -/
theorem convert_canonical_min :
    0 + kMaxNumericSize ≤ (List.replicate 32 (0 : Byte)).length ∧
    convert (List.replicate 32 0) 0 IntKind.longLong.min.value =
      .ok (Block.store (List.replicate 32 0) 0 (ascii ['-', '9', '2', '2', '3', '3', '7', '2', '0',
        '3', '6', '8', '5', '4', '7', '7', '5', '8', '0', '8'] ++ [0]), 20) := by
  have hroom : 0 + kMaxNumericSize ≤ (List.replicate 32 (0 : Byte)).length := by decide
  refine ⟨hroom, ?_⟩
  obtain ⟨text, -, hunique, -, hconvert⟩ := (convert_canonical hroom).1 IntKind.longLong.min
  have hmin : IsNumeral 10 [9, 2, 2, 3, 3, 7, 2, 0, 3, 6, 8, 5, 4, 7, 7, 5, 8, 0, 8]
      9223372036854775808 :=
    ⟨by decide, by decide, by decide, by decide⟩
  have htext := hunique _ (.neg (by decide) hmin)
  rw [hconvert, ← htext]
  rfl

/-! ## The insertions that find room -/

/-- Those of a list of insertions that find room, when so many bytes are available. -/
def found : Nat → List Insertion → List Insertion
  | _, [] => []
  | avail, i :: is =>
    if i.Room avail then i :: found (avail - i.rendering.length) is else found avail is

theorem foldl_absorb (contents : List Byte) (is : List Insertion) : is.foldl absorb contents =
    contents ++ (found (kSmallBuffer - contents.length) is).flatMap Insertion.rendering := by
  induction is generalizing contents with
  | nil => simp [found]
  | cons i is ih =>
    rw [List.foldl_cons, ih, absorb, found]
    split_ifs with hroom
    · rw [List.flatMap_cons, List.append_assoc, List.length_append, Nat.sub_sub]
    · rfl

/-- The next insertion, whatever the stream holds. -/
theorem insert_next {s : LogStream} (h : s.WF) {i : Insertion} (hi : i.Constructed) :
    (i.Room s.avail → ∃ s', s.insert i = .ok s' ∧ s'.data.length = kSmallBuffer ∧
      s'.cur = s.cur + i.rendering.length ∧ s'.contents = s.contents ++ i.rendering) ∧
    (¬ i.Room s.avail → s.insert i = .ok s) := by
  have hinsert : s.insert i = .ok (s.after i) := (insert_eq h i).trans (if_pos hi)
  obtain ⟨hwf, hcontents⟩ := after_spec h i
  constructor
  · intro hroom
    rw [if_pos hroom] at hcontents
    exact ⟨s.after i, hinsert, hwf.size, by rw [after_of_room i hroom], hcontents⟩
  · intro hfull
    rw [hinsert, after_of_full i hfull]

/-- **A stream holds the insertions that found room, and nothing else.** Whatever is inserted into a
new stream: `cur_` stays in front of a byte of `data_`, which is free for a terminating zero;
nothing is written outside of `data_`; and an insertion that finds no room changes nothing. Only the
assertion in the constructor of `Fmt` can stop this. -/
theorem insertAll_contents {data : List Byte} (hdata : data.length = kSmallBuffer)
    (is : List Insertion) :
    (∃ s, insertAll ⟨data, 0⟩ is = .ok s ∧ s.data.length = kSmallBuffer ∧
      s.cur + s.avail = kSmallBuffer ∧ 0 < s.avail ∧
      s.contents = (found kSmallBuffer is).flatMap Insertion.rendering ∧
      (∀ i : Insertion, i.Constructed →
        (i.Room s.avail → ∃ s', s.insert i = .ok s' ∧ s'.data.length = kSmallBuffer ∧
          s'.cur = s.cur + i.rendering.length ∧ s'.contents = s.contents ++ i.rendering) ∧
        (¬ i.Room s.avail → s.insert i = .ok s)) ∧
      ∃ s', s.debugString = .ok s' ∧ s'.contents = s.contents) ∨
    ∃ bytes, .fmt bytes ∈ is ∧ 32 ≤ bytes.length ∧
      insertAll ⟨data, 0⟩ is = .error .fmtLength := by
  have hnew := wf_new hdata
  rw [insertAll_eq_ite hnew]
  by_cases hall : ∀ i ∈ is, i.Constructed
  · left
    obtain ⟨hwf, hcontents⟩ := foldl_after_spec hnew is
    obtain ⟨s', hdebug, -, hsame⟩ := FixedBuffer.debugString_spec hwf
    have hcur := hwf.cur_lt
    rw [foldl_absorb] at hcontents
    exact ⟨_, if_pos hall, hwf.size, Nat.add_sub_of_le (by omega), Nat.sub_pos_of_lt hcur,
      hcontents, fun i hi => insert_next hwf hi, s', hdebug, hsame⟩
  · right
    obtain ⟨i, hi, hnot⟩ : ∃ i ∈ is, ¬ i.Constructed := by simpa using hall
    cases i with
    | fmt bytes => exact ⟨bytes, hi, not_lt.1 hnot, if_neg hall⟩
    | text _ | integer _ | pointer _ | double _ => exact absurd trivial hnot

/-- A text that is too long is left out, and what comes behind it is not. -/
theorem insertAll_contents_sample :
    (List.replicate kSmallBuffer (0 : Byte)).length = kSmallBuffer ∧
    ∃ s, insertAll ⟨List.replicate kSmallBuffer 0, 0⟩
        [.integer IntKind.short.min, .text (List.replicate kSmallBuffer 0), .pointer 255,
          .fmt (ascii ['.', '0'])] = .ok s ∧
      s.contents = ascii ['-', '3', '2', '7', '6', '8', '0', 'x', 'F', 'F', '.', '0'] := by
  have hdata : (List.replicate kSmallBuffer (0 : Byte)).length = kSmallBuffer :=
    List.length_replicate
  refine ⟨hdata, ?_⟩
  obtain ⟨s, hs, -, -, -, hcontents, -⟩ | ⟨bytes, hmem, hlen, -⟩ := insertAll_contents hdata
    [.integer IntKind.short.min, .text (List.replicate kSmallBuffer 0), .pointer 255,
      .fmt (ascii ['.', '0'])]
  · have hlong : ∀ avail ≤ kSmallBuffer,
        ¬ Insertion.Room avail (.text (List.replicate kSmallBuffer 0)) := by
      intro avail hle hroom
      have hlt : (List.replicate kSmallBuffer (0 : Byte)).length < avail := hroom
      omega
    refine ⟨s, hs, hcontents.trans ?_⟩
    rw [found, if_pos (by decide), found, if_neg (hlong _ (Nat.sub_le _ _))]
    rfl
  · have hbytes : bytes = ascii ['.', '0'] := by simpa using hmem
    rw [hbytes] at hlen
    exact absurd hlen (by decide)

end LogStream
end TinyMuduo

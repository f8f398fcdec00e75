import Mathlib.Data.List.Basic

/-!
# Lib.Block

Blocks of memory as lists: what copying loops do to them.

* `store l i xs` — writes `xs` into `l` from index `i` on, one element after another.
* `move l src dst n` — moves `n` elements inside `l`, one after another, lowest first. The two
  ranges may overlap: `move_getElem?` holds whenever the destination does not lie above the source.
* `slice l i j` — the elements of `l` at the indices `i, …, j - 1`.
-/

namespace Block

variable {α : Type}

def store : List α → Nat → List α → List α
  | l, _, [] => l
  | l, i, x :: xs => store (l.set i x) (i + 1) xs

def move : List α → Nat → Nat → Nat → List α
  | l, _, _, 0 => l
  | l, src, dst, n + 1 =>
    match l[src]? with
    | some x => move (l.set dst x) (src + 1) (dst + 1) n
    | none => l

def slice (l : List α) (i j : Nat) : List α := (l.take j).drop i

@[simp] theorem store_length (l : List α) (i : Nat) (xs : List α) :
    (store l i xs).length = l.length := by
  induction xs generalizing l i with
  | nil => rfl
  | cons x xs ih => simp [store, ih]

@[simp] theorem move_length (l : List α) (src dst n : Nat) :
    (move l src dst n).length = l.length := by
  induction n generalizing l src dst with
  | zero => rfl
  | succ n ih =>
    simp only [move]
    split
    · simp [ih]
    · rfl

theorem store_append (l : List α) (i : Nat) (xs ys : List α) :
    store l i (xs ++ ys) = store (store l i xs) (i + xs.length) ys := by
  induction xs generalizing l i with
  | nil => rfl
  | cons x xs ih => rw [List.cons_append, store, store, ih, List.length_cons, Nat.add_right_comm,
      Nat.add_assoc]

theorem store_getElem? (l : List α) (i : Nat) (xs : List α) (h : i + xs.length ≤ l.length)
    (k : Nat) :
    (store l i xs)[k]? = if i ≤ k ∧ k < i + xs.length then xs[k - i]? else l[k]? := by
  induction xs generalizing l i with
  | nil =>
    have hk : ¬ (i ≤ k ∧ k < i + ([] : List α).length) := by simp
    rw [if_neg hk]; rfl
  | cons x xs ih =>
    simp only [List.length_cons] at h ⊢
    rw [store, ih (l.set i x) (i + 1) (by simp; omega)]
    by_cases hki : k = i
    · subst hki
      have hlt : k < l.length := by omega
      rw [if_neg (by omega), if_pos (by omega)]
      simp [hlt]
    · rw [List.getElem?_set_ne (by omega)]
      by_cases hin : i + 1 ≤ k ∧ k < i + 1 + xs.length
      · rw [if_pos hin, if_pos (by omega)]
        obtain ⟨d, rfl⟩ : ∃ d, k = i + 1 + d := ⟨k - (i + 1), by omega⟩
        simp [show i + 1 + d - i = d + 1 by omega]
      · rw [if_neg hin, if_neg (by omega)]

/-- The front of what was stored is replaced. -/
theorem store_store_front {l xs ys zs : List α} {i : Nat} (hlen : ys.length = xs.length)
    (h : i + (xs ++ zs).length ≤ l.length) :
    store (store l i (xs ++ zs)) i ys = store l i (ys ++ zs) := by
  rw [List.length_append] at h
  apply List.ext_getElem?
  intro k
  rw [store_getElem? _ i ys (by rw [store_length]; omega),
    store_getElem? l i (xs ++ zs) (by rw [List.length_append]; omega),
    store_getElem? l i (ys ++ zs) (by rw [List.length_append]; omega), List.length_append,
    List.length_append, hlen]
  by_cases hk : i ≤ k ∧ k < i + xs.length
  · rw [if_pos hk, if_pos (by omega), List.getElem?_append_left (by omega)]
  · rw [if_neg hk]
    by_cases hk' : i ≤ k ∧ k < i + (xs.length + zs.length)
    · rw [if_pos hk', if_pos hk', List.getElem?_append_right (by omega),
        List.getElem?_append_right (by omega), hlen]
    · rw [if_neg hk', if_neg hk']

/-- A move to lower addresses reads every source element before it overwrites it. -/
theorem move_getElem? (l : List α) (src dst n : Nat) (hle : dst ≤ src) (h : src + n ≤ l.length)
    (k : Nat) :
    (move l src dst n)[k]? = if dst ≤ k ∧ k < dst + n then l[k - dst + src]? else l[k]? := by
  induction n generalizing l src dst with
  | zero => rw [if_neg (by omega)]; rfl
  | succ n ih =>
    have hsrc : src < l.length := by omega
    have hx : l[src]? = some l[src] := List.getElem?_eq_getElem hsrc
    simp only [move, hx]
    rw [ih (l.set dst l[src]) (src + 1) (dst + 1) (by omega) (by simp; omega)]
    by_cases hin : dst + 1 ≤ k ∧ k < dst + 1 + n
    · rw [if_pos hin, if_pos (by omega), List.getElem?_set_ne (by omega)]
      congr 1; omega
    · rw [if_neg hin]
      by_cases hk : k = dst
      · subst hk
        rw [if_pos (by omega)]
        simp [hx, show k < l.length by omega]
      · rw [if_neg (by omega), List.getElem?_set_ne (by omega)]

theorem slice_getElem? (l : List α) (i j k : Nat) :
    (slice l i j)[k]? = if i + k < j then l[i + k]? else none := by
  rw [slice, List.getElem?_drop, List.getElem?_take]

theorem slice_length {l : List α} {i j : Nat} (h : j ≤ l.length) :
    (slice l i j).length = j - i := by
  simp [slice, Nat.min_eq_left h]

@[simp] theorem slice_self (l : List α) (i : Nat) : slice l i i = [] := by
  simp [slice]

theorem slice_drop (l : List α) (i j k : Nat) : slice l (i + k) j = (slice l i j).drop k := by
  simp [slice, List.drop_drop]

theorem slice_take (l : List α) (i j k : Nat) (h : i + k ≤ j) :
    slice l i (i + k) = (slice l i j).take k := by
  apply List.ext_getElem?
  intro m
  rw [slice_getElem?, List.getElem?_take, slice_getElem?]
  by_cases hm : m < k
  · rw [if_pos (by omega), if_pos hm, if_pos (by omega)]
  · rw [if_neg (by omega), if_neg hm]

theorem slice_append {l m : List α} {i j : Nat} (h : j ≤ l.length) :
    slice (l ++ m) i j = slice l i j := by
  simp [slice, List.take_append_of_le_length h]

/-- The middle of three parts. -/
theorem slice_middle (a b d : List α) :
    slice (a ++ (b ++ d)) a.length (a.length + b.length) = b := by
  rw [slice, List.drop_take, List.drop_left, Nat.add_sub_cancel_left, List.take_left]

/-- Storing at the end of a slice and taking `k` of the stored elements in extends it at the
back. -/
theorem slice_store_back {l xs : List α} {i j k : Nat} (hij : i ≤ j) (hk : k ≤ xs.length)
    (h : j + xs.length ≤ l.length) :
    slice (store l j xs) i (j + k) = slice l i j ++ xs.take k := by
  apply List.ext_getElem?
  intro m
  have hlen : (slice l i j).length = j - i := slice_length (by omega)
  rw [slice_getElem?, store_getElem? l j xs h, List.getElem?_append, slice_getElem?, hlen,
    List.getElem?_take]
  by_cases hm : i + m < j
  · rw [if_pos (by omega), if_neg (by omega), if_pos (by omega), if_pos hm]
  · rw [if_neg (by omega : ¬ m < j - i)]
    by_cases hm' : i + m < j + k
    · rw [if_pos hm', if_pos (by omega), if_pos (by omega)]
      congr 1; omega
    · rw [if_neg hm', if_neg (by omega)]

/-- Storing right in front of a slice extends it at the front. -/
theorem slice_store_front {l xs : List α} {i j : Nat} (hij : i + xs.length ≤ j)
    (h : j ≤ l.length) : slice (store l i xs) i j = xs ++ slice l (i + xs.length) j := by
  apply List.ext_getElem?
  intro k
  rw [slice_getElem?, store_getElem? l i xs (by omega), List.getElem?_append, slice_getElem?]
  by_cases hk : k < xs.length
  · rw [if_pos (by omega), if_pos (by omega), if_pos hk]
    congr 1; omega
  · rw [if_neg hk]
    by_cases hk' : i + k < j
    · rw [if_pos hk', if_neg (by omega), if_pos (by omega)]
      congr 1; omega
    · rw [if_neg hk', if_neg (by omega)]

/-- A slice moved down is found at its new place. -/
theorem slice_move {l : List α} {src dst n : Nat} (hle : dst ≤ src) (h : src + n ≤ l.length) :
    slice (move l src dst n) dst (dst + n) = slice l src (src + n) := by
  apply List.ext_getElem?
  intro k
  rw [slice_getElem?, slice_getElem?, move_getElem? l src dst n hle h]
  by_cases hk : k < n
  · rw [if_pos (by omega), if_pos (by omega), if_pos (by omega)]
    congr 1; omega
  · rw [if_neg (by omega), if_neg (by omega)]

end Block

import Mathlib.Data.List.Basic

/-!
# Lib.LowerBound

`std::lower_bound` on a vector, for a comparison that need not be monotone on it.

* `search less xs` — the loop of the library. `none` is an access outside of the vector.
* `Boundary less xs r` — `r` stands between an element that is `less` and one that is not.
  `search_boundary`: the search ends at a boundary, whatever the comparison.
* `Splits p xs n` — `p` holds of the first `n` elements and of no other; on a vector on which `p`
  is antitone there is such an `n`.
-/

namespace LowerBound

variable {α : Type}

def loop (less : α → Bool) (xs : List α) : (fuel first len : Nat) → Option Nat
  | 0, first, _ => some first
  | fuel + 1, first, len =>
    if len = 0 then
      some first
    else
      let half := len / 2
      match xs[first + half]? with
      | none => none
      | some x =>
        if less x then loop less xs fuel (first + half + 1) (len - half - 1)
        else loop less xs fuel first half

/-- The length goes down in each round, so that it bounds the number of rounds. -/
def search (less : α → Bool) (xs : List α) : Option Nat := loop less xs xs.length 0 xs.length

structure Boundary (less : α → Bool) (xs : List α) (r : Nat) : Prop where
  le : r ≤ xs.length
  left : ∀ k x, k + 1 = r → xs[k]? = some x → less x = true
  right : ∀ x, xs[r]? = some x → less x = false

theorem loop_boundary {less : α → Bool} {xs : List α} {fuel first len : Nat} (hfuel : len ≤ fuel)
    (hle : first + len ≤ xs.length)
    (hleft : ∀ k x, k + 1 = first → xs[k]? = some x → less x = true)
    (hright : ∀ x, xs[first + len]? = some x → less x = false) :
    ∃ r, loop less xs fuel first len = some r ∧ Boundary less xs r := by
  induction fuel generalizing first len with
  | zero =>
    obtain rfl : len = 0 := by omega
    exact ⟨first, rfl, hle, hleft, hright⟩
  | succ fuel ih =>
    by_cases hlen : len = 0
    · subst hlen
      exact ⟨first, by simp [loop], hle, hleft, hright⟩
    · have hmid : first + len / 2 < xs.length := by omega
      have hget := List.getElem?_eq_getElem hmid
      cases hless : less xs[first + len / 2] with
      | true =>
        have hloop : loop less xs (fuel + 1) first len =
            loop less xs fuel (first + len / 2 + 1) (len - len / 2 - 1) := by
          simp [loop, hlen, hget, hless]
        rw [hloop]
        refine ih (by omega) (by omega) ?_ ?_
        · intro k x hk hx
          obtain rfl : k = first + len / 2 := by omega
          rw [hget] at hx
          cases hx
          exact hless
        · rw [show first + len / 2 + 1 + (len - len / 2 - 1) = first + len by omega]
          exact hright
      | false =>
        have hloop : loop less xs (fuel + 1) first len = loop less xs fuel first (len / 2) := by
          simp [loop, hlen, hget, hless]
        rw [hloop]
        refine ih (by omega) (by omega) hleft ?_
        intro x hx
        rw [hget] at hx
        cases hx
        exact hless

theorem search_boundary (less : α → Bool) (xs : List α) :
    ∃ r, search less xs = some r ∧ Boundary less xs r := by
  refine loop_boundary (Nat.le_refl _) (by omega) (fun k x hk => nomatch hk) fun x hx => ?_
  rw [Nat.zero_add, List.getElem?_eq_none (Nat.le_refl _)] at hx
  cases hx

structure Splits (p : α → Prop) (xs : List α) (n : Nat) : Prop where
  le : n ≤ xs.length
  iff : ∀ k x, xs[k]? = some x → (k < n ↔ p x)

/-- It is enough to look at the two elements next to the boundary. -/
theorem Splits.of_adjacent {p : α → Prop} {xs : List α} {n : Nat}
    (h : xs.Pairwise fun a b => p b → p a) (hle : n ≤ xs.length)
    (hleft : ∀ k x, k + 1 = n → xs[k]? = some x → p x) (hright : ∀ x, xs[n]? = some x → ¬ p x) :
    Splits p xs n := by
  have hmono : ∀ j k : Nat, j ≤ k → ∀ a b, xs[j]? = some a → xs[k]? = some b → p b → p a := by
    intro j k hjk a b ha hb
    obtain ⟨hj, rfl⟩ := List.getElem?_eq_some_iff.1 ha
    obtain ⟨hk, rfl⟩ := List.getElem?_eq_some_iff.1 hb
    rcases Nat.eq_or_lt_of_le hjk with rfl | hlt
    · exact id
    · exact List.pairwise_iff_getElem.1 h j k hj hk hlt
  refine ⟨hle, fun k x hx => ⟨fun hk => ?_, fun hp => ?_⟩⟩
  · have hpred := List.getElem?_eq_getElem (l := xs) (i := n - 1) (by omega)
    exact hmono k (n - 1) (by omega) x _ hx hpred (hleft (n - 1) _ (by omega) hpred)
  · by_contra hk
    have hklt := (List.getElem?_eq_some_iff.1 hx).1
    have hn := List.getElem?_eq_getElem (l := xs) (i := n) (by omega)
    exact hright _ hn (hmono n k (by omega) _ x hn hx hp)

theorem exists_splits (p : α → Prop) {xs : List α} (h : xs.Pairwise fun a b => p b → p a) :
    ∃ n, Splits p xs n := by
  classical
  induction xs with
  | nil => exact ⟨0, Nat.le_refl _, nofun⟩
  | cons a xs ih =>
    obtain ⟨ha, h⟩ := List.pairwise_cons.1 h
    obtain ⟨n, hn⟩ := ih h
    by_cases hp : p a
    · refine ⟨n + 1, Nat.succ_le_succ hn.le, fun k x hx => ?_⟩
      cases k with
      | zero =>
        cases hx
        exact ⟨fun _ => hp, fun _ => Nat.succ_pos n⟩
      | succ k =>
        rw [← hn.iff k x hx]
        exact Nat.succ_lt_succ_iff
    · refine ⟨0, Nat.zero_le _, fun k x hx => ⟨fun hk => (nomatch hk), fun hpx => ?_⟩⟩
      cases k with
      | zero =>
        cases hx
        exact absurd hpx hp
      | succ k => exact absurd (ha x (List.mem_of_getElem? hx) hpx) hp

theorem Splits.countP_eq {p : α → Prop} [DecidablePred p] {xs : List α} {n : Nat}
    (h : Splits p xs n) : xs.countP (p ·) = n := by
  have htake : (xs.take n).countP (p ·) = n := by
    rw [List.countP_eq_length.2, List.length_take, Nat.min_eq_left h.le]
    intro x hx
    obtain ⟨k, hk⟩ := List.mem_iff_getElem?.1 hx
    rw [List.getElem?_take, Option.ite_none_right_eq_some] at hk
    exact decide_eq_true ((h.iff k x hk.2).1 hk.1)
  have hdrop : (xs.drop n).countP (p ·) = 0 := by
    refine List.countP_eq_zero.2 fun x hx => ?_
    obtain ⟨k, hk⟩ := List.mem_iff_getElem?.1 hx
    rw [List.getElem?_drop] at hk
    have hnot := (h.iff (n + k) x hk).not.1 (by omega)
    simpa using hnot
  rw [← List.take_append_drop n xs, List.countP_append, htake, hdrop, Nat.add_zero]

end LowerBound

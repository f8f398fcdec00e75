import Mathlib.Algebra.Group.Action.Defs
import Mathlib.Algebra.Order.BigOperators.Group.List
import Mathlib.Algebra.Order.Group.Multiset
import Mathlib.Algebra.Order.Ring.Nat

/-!
# Lib.Total

The sum of a measure over the entries of a list: when one entry changes, and at most.
-/

namespace List

variable {α M : Type} {l : List α} {k : Nat} {a b : α}

theorem sum_map_set [AddCommMonoid M] {f : α → M} {x y : M} (h : l[k]? = some a) (ha : f a = x)
    (hb : f b = y) : ((l.set k b).map f).sum + x = (l.map f).sum + y := by
  induction l generalizing k with
  | nil => cases h
  | cons c l ih =>
    cases k with
    | zero =>
      cases h
      rw [List.set_cons_zero, List.map_cons, List.map_cons, List.sum_cons, List.sum_cons, ha, hb,
        add_right_comm, add_comm y, add_right_comm]
    | succ k =>
      have htail := ih (k := k) h
      rw [List.set_cons_succ, List.map_cons, List.map_cons, List.sum_cons, List.sum_cons, add_assoc,
        htail, add_assoc]

theorem sum_map_toNat (p : α → Bool) (l : List α) :
    (l.map fun a => (p a).toNat).sum = l.countP p := by
  induction l with
  | nil => rfl
  | cons a l ih =>
    rw [List.map_cons, List.sum_cons, ih, List.countP_cons]
    cases p a <;> simp [Nat.add_comm]

theorem sum_map_toList {β : Type} (g : α → Option β) (l : List α) :
    (l.map fun a => ((g a).toList : Multiset β)).sum = (l.filterMap g : Multiset β) := by
  induction l with
  | nil => rfl
  | cons a l ih =>
    rw [List.map_cons, List.sum_cons, ih, Multiset.coe_add, List.filterMap_cons]
    cases g a <;> rfl

theorem sum_map_le {f : α → Nat} {m : Nat} (h : ∀ a ∈ l, f a ≤ m) :
    (l.map f).sum ≤ m * l.length := by
  have hsum := List.sum_le_card_nsmul (l.map f) m fun k hk => by
    obtain ⟨a, ha, rfl⟩ := List.mem_map.1 hk
    exact h a ha
  rwa [List.length_map, smul_eq_mul, Nat.mul_comm] at hsum

end List

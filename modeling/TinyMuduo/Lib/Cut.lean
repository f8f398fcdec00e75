import Mathlib.Data.List.TakeWhile

/-!
# Lib.Cut

Lists that are cut at the first occurrence of an element.

* `findIdx_append_cons` — where the cut is, when the part before it does not have the element.
* `eq_append_cons_of_findIdx`, `not_mem_take_findIdx` — the two parts of a list that has one.
* `append_cons_inj` — the parts are determined by the list.
-/

namespace Cut

variable {α : Type} [DecidableEq α] {c : α} {l : List α}

theorem findIdx_append_cons (h : c ∉ l) (m : List α) :
    (l ++ c :: m).findIdx (· = c) = l.length := by
  induction l with
  | nil => simp [List.findIdx_cons]
  | cons x l ih =>
    have hx : x ≠ c := fun hx => h (by simp [hx])
    have hl : c ∉ l := fun hl => h (by simp [hl])
    simp [List.findIdx_cons, hx, ih hl]

theorem take_findIdx (l : List α) (c : α) :
    l.take (l.findIdx (· = c)) = l.takeWhile (· ≠ c) := by
  induction l with
  | nil => rfl
  | cons x l ih => by_cases hx : x = c <;> simp [List.findIdx_cons, hx, ih]

theorem drop_findIdx (l : List α) (c : α) :
    l.drop (l.findIdx (· = c)) = l.dropWhile (· ≠ c) := by
  induction l with
  | nil => rfl
  | cons x l ih => by_cases hx : x = c <;> simp [List.findIdx_cons, hx, ih]

theorem not_mem_take_findIdx (l : List α) (c : α) : c ∉ l.take (l.findIdx (· = c)) := by
  rw [take_findIdx]
  intro hmem
  simpa using List.mem_takeWhile_imp hmem

theorem eq_append_cons_of_findIdx {k : Nat} (hk : l.findIdx (· = c) = k) (hlt : k < l.length) :
    l = l.take k ++ c :: l.drop (k + 1) := by
  have hget : l[k] = c := by
    subst hk
    simpa using List.findIdx_getElem (w := hlt)
  conv => lhs; rw [← List.take_append_drop k l, List.drop_eq_getElem_cons hlt, hget]

theorem append_cons_inj {a a' b b' : List α} (ha : c ∉ a) (ha' : c ∉ a')
    (h : a ++ c :: b = a' ++ c :: b') : a = a' ∧ b = b' := by
  have hlen : a.length = a'.length := by
    rw [← findIdx_append_cons ha b, h, findIdx_append_cons ha' b']
  obtain ⟨hl, hr⟩ := List.append_inj h hlen
  exact ⟨hl, (List.cons.inj hr).2⟩

end Cut

import Mathlib.Data.List.Basic

/-!
# Lib.Table

Numbered slots, each free or with its owner; the lowest free number is given out first.

* `owner t i` — who has slot `i`.
* `lowest t` — the number that is given out next, if there is one.
* `put`, `release` — slot `i` gets an owner, or is free again. `owner_put` and `owner_release` say
  that nobody else's slot changes.
* `Hole t i` — slot `i` is the only free one. In a full table a slot that is released is the next
  one to be given out, so what released it gets the same number again.
-/

abbrev Table (α : Type) := List (Option α)

namespace Table

variable {α : Type} {t : Table α} {i j : Nat} {a : α}

def owner (t : Table α) (i : Nat) : Option α := (t[i]?).join

def lowest (t : Table α) : Option Nat := t.findIdx? Option.isNone

def put (t : Table α) (i : Nat) (a : α) : Table α := t.set i (some a)

def release (t : Table α) (i : Nat) : Table α := t.set i none

theorem lt_of_owner (h : t.owner i = some a) : i < t.length := by
  by_contra hn
  rw [owner, List.getElem?_eq_none (Nat.le_of_not_lt hn)] at h
  cases h

theorem mem_of_owner (h : t.owner i = some a) : some a ∈ t :=
  List.mem_of_getElem? (Option.join_eq_some_iff.1 h)

theorem owner_put (hi : i < t.length) :
    (t.put i a).owner j = if i = j then some a else t.owner j := by
  unfold owner put
  rw [List.getElem?_set]
  split
  · rfl
  · rfl

theorem owner_release : (t.release i).owner j = if i = j then none else t.owner j := by
  unfold owner release
  rw [List.getElem?_set]
  split
  · split <;> rfl
  · rfl

@[simp] theorem length_put : (t.put i a).length = t.length := List.length_set

@[simp] theorem length_release : (t.release i).length = t.length := List.length_set

theorem owner_eq_none (hi : i < t.length) : t.owner i = none ↔ (t.get ⟨i, hi⟩).isNone = true := by
  rw [owner, List.getElem?_eq_getElem hi, Option.isNone_iff_eq_none]
  rfl

/-- A slot that is given out and released at once. -/
theorem release_put (hi : i < t.length) (h : t.owner i = none) : (t.put i a).release i = t := by
  have hget : t[i] = none := Option.isNone_iff_eq_none.1 ((owner_eq_none hi).1 h)
  rw [put, release, List.set_set, ← hget, List.set_getElem_self]

/-- A slot that is released and given to the same owner at once. -/
theorem put_release (h : t.owner i = some a) : (t.release i).put i a = t := by
  have hi := lt_of_owner h
  have hget : t[i] = some a := by
    rw [owner, List.getElem?_eq_getElem hi] at h
    exact h
  rw [put, release, List.set_set, ← hget, List.set_getElem_self]

/-- The number given out is free, and all lower ones are not. -/
theorem lowest_eq_some (h : t.lowest = some i) :
    i < t.length ∧ t.owner i = none ∧ ∀ j < i, t.owner j ≠ none := by
  obtain ⟨hi, hnone, hlow⟩ := List.findIdx?_eq_some_iff_getElem.1 h
  refine ⟨hi, (owner_eq_none hi).2 hnone, fun j hj hn => ?_⟩
  exact hlow j hj ((owner_eq_none (Nat.lt_trans hj hi)).1 hn)

/-- No number is given out when all slots have owners. -/
theorem lowest_eq_none : t.lowest = none ↔ ∀ i < t.length, t.owner i ≠ none := by
  rw [lowest, List.findIdx?_eq_none_iff]
  constructor
  · intro h i hi hn
    have hget := h _ (List.get_mem t ⟨i, hi⟩)
    rw [(owner_eq_none hi).1 hn] at hget
    cases hget
  · intro h x hx
    obtain ⟨i, rfl⟩ := List.get_of_mem hx
    cases hget : (t.get i).isNone with
    | false => rfl
    | true => exact absurd ((owner_eq_none i.2).2 hget) (h i i.2)

/-- Slot `i` is the only free one. -/
structure Hole (t : Table α) (i : Nat) : Prop where
  lt : i < t.length
  free : t.owner i = none
  only : ∀ j < t.length, j ≠ i → t.owner j ≠ none

theorem Hole.of_release (hfull : t.lowest = none) (hi : i < t.length) : Hole (t.release i) i where
  lt := by rw [length_release]; exact hi
  free := by rw [owner_release, if_pos rfl]
  only := fun j hj hne => by
    rw [length_release] at hj
    rw [owner_release, if_neg (Ne.symm hne)]
    exact lowest_eq_none.1 hfull j hj

theorem Hole.lowest (h : Hole t i) : t.lowest = some i := by
  cases hl : t.lowest with
  | none => exact absurd h.free (lowest_eq_none.1 hl i h.lt)
  | some j =>
    obtain ⟨hj, hfree, -⟩ := lowest_eq_some hl
    by_contra hne
    exact h.only j hj (fun he => hne (by rw [he])) hfree

/-- The table is full again. -/
theorem Hole.put (h : Hole t i) (a : α) : (t.put i a).lowest = none := by
  refine lowest_eq_none.2 fun j hj => ?_
  rw [length_put] at hj
  rw [owner_put h.lt]
  split
  · exact fun hn => by cases hn
  next hne => exact h.only j hj (Ne.symm hne)

end Table

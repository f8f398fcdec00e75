import Mathlib.Data.List.Basic
import Mathlib.Logic.Function.Basic

/-!
# Lib.Slots

An array in which every slot has one owner. `pos` is the position each owner keeps of its slot.

* `Slots xs pos` — the positions are a bijection between the owners and the slots of `xs`.
* `item xs pos c` — what the slot of `c` holds.
* `push`, `set`, `swapRemove` — a slot is added at the end, written, or taken away by moving the
  last one into its place. The `item_` lemmas say that nobody else's item changes, although
  `swapRemove` gives one other owner a new position.
-/

structure Slots {κ α : Type} (xs : List α) (pos : κ → Option Nat) : Prop where
  bound : ∀ c k, pos c = some k → k < xs.length
  inj : ∀ c d k, pos c = some k → pos d = some k → c = d
  cover : ∀ k, k < xs.length → ∃ c, pos c = some k

namespace Slots

open Function

variable {κ α : Type} {xs : List α} {pos : κ → Option Nat} {c d : κ} {k : Nat}

def item (xs : List α) (pos : κ → Option Nat) (c : κ) : Option α := (pos c).bind fun k => xs[k]?

theorem item_eq (h : pos c = some k) : item xs pos c = xs[k]? := by rw [item, h, Option.bind_some]

theorem item_none (h : pos c = none) : item xs pos c = none := by rw [item, h, Option.bind_none]

theorem nil : Slots ([] : List α) (fun _ : κ => none) :=
  ⟨nofun, nofun, nofun⟩

/-- An owner has an item. -/
theorem exists_item (h : Slots xs pos) (hc : pos c = some k) : ∃ x, item xs pos c = some x := by
  rw [item_eq hc]
  exact ⟨_, List.getElem?_eq_getElem (h.bound c k hc)⟩

section Push

variable [DecidableEq κ]

theorem push (h : Slots xs pos) (hc : pos c = none) (x : α) :
    Slots (xs ++ [x]) (update pos c (some xs.length)) := by
  have hlen : (xs ++ [x]).length = xs.length + 1 := List.length_append
  have hne : ∀ d k, d ≠ c → pos d = some k → k ≠ xs.length := fun d k _ hd =>
    Nat.ne_of_lt (h.bound d k hd)
  refine ⟨fun d j hd => ?_, fun d e j hd he => ?_, fun j hj => ?_⟩
  · by_cases hdc : d = c
    · rw [hdc, update_self] at hd
      cases hd
      omega
    · rw [update_of_ne hdc] at hd
      have := h.bound d j hd
      omega
  · by_cases hdc : d = c <;> by_cases hec : e = c
    · rw [hdc, hec]
    · rw [hdc, update_self] at hd
      rw [update_of_ne hec] at he
      exact absurd (Option.some.inj hd).symm (hne e j hec he)
    · rw [hec, update_self] at he
      rw [update_of_ne hdc] at hd
      exact absurd (Option.some.inj he).symm (hne d j hdc hd)
    · rw [update_of_ne hdc] at hd
      rw [update_of_ne hec] at he
      exact h.inj d e j hd he
  · rcases Nat.lt_or_ge j xs.length with hlt | hge
    · obtain ⟨d, hd⟩ := h.cover j hlt
      have hdc : d ≠ c := fun hdc => by rw [hdc, hc] at hd; cases hd
      exact ⟨d, by rw [update_of_ne hdc]; exact hd⟩
    · exact ⟨c, by rw [update_self, show j = xs.length by omega]⟩

theorem item_push_self (x : α) :
    item (xs ++ [x]) (update pos c (some xs.length)) c = some x := by
  rw [item_eq (update_self ..)]
  simp

theorem item_push_ne (h : Slots xs pos) (hd : d ≠ c) (x : α) :
    item (xs ++ [x]) (update pos c (some xs.length)) d = item xs pos d := by
  rw [item, update_of_ne hd, item]
  cases hp : pos d with
  | none => rfl
  | some j => exact List.getElem?_append_left (h.bound d j hp)

end Push

section Set

theorem set (h : Slots xs pos) (k : Nat) (x : α) : Slots (xs.set k x) pos := by
  refine ⟨fun c j hc => ?_, h.inj, fun j hj => h.cover j ?_⟩
  · rw [List.length_set]; exact h.bound c j hc
  · rwa [List.length_set] at hj

theorem item_set_self (h : Slots xs pos) (hc : pos c = some k) (x : α) :
    item (xs.set k x) pos c = some x := by
  rw [item_eq hc]
  exact List.getElem?_set_self (h.bound c k hc)

theorem item_set_ne (h : Slots xs pos) (hc : pos c = some k) (hd : d ≠ c) (x : α) :
    item (xs.set k x) pos d = item xs pos d := by
  rw [item, item]
  cases hp : pos d with
  | none => rfl
  | some j =>
    refine List.getElem?_set_ne fun hkj : k = j => hd (h.inj d c k ?_ hc)
    rw [hkj, hp]

end Set

section SwapRemove

variable [DecidableEq κ] {last : α}

/-- The positions once the slot `k` of `c` went to `d`, which had the last one. -/
def moved (pos : κ → Option Nat) (c d : κ) (k : Nat) : κ → Option Nat :=
  update (update pos d (some k)) c none

theorem moved_self (pos : κ → Option Nat) (c d : κ) (k : Nat) : moved pos c d k c = none :=
  update_self ..

theorem moved_last (pos : κ → Option Nat) (hd : d ≠ c) (k : Nat) :
    moved pos c d k d = some k := by
  rw [moved, update_of_ne hd, update_self]

theorem moved_other (pos : κ → Option Nat) {e : κ} (hc : e ≠ c) (hd : e ≠ d) (k : Nat) :
    moved pos c d k e = pos e := by
  rw [moved, update_of_ne hc, update_of_ne hd]

/-- When the slot of `c` is the last one, nobody moves. -/
theorem moved_of_eq (pos : κ → Option Nat) (c : κ) (k : Nat) :
    moved pos c c k = update pos c none := update_idem ..

theorem dropLast_set_last (xs : List α) (x : α) :
    (xs.set (xs.length - 1) x).dropLast = xs.dropLast := by
  refine List.ext_getElem? fun j => ?_
  rw [List.getElem?_dropLast, List.getElem?_dropLast, List.length_set]
  split
  next hj => exact List.getElem?_set_ne (by omega)
  next => rfl

/-- What an owner other than `c` has afterwards: the slot it had, or `k` in place of the last. -/
theorem moved_eq_some (h : Slots xs pos) (hk : pos c = some k)
    (hd : pos d = some (xs.length - 1)) {e : κ} {j : Nat} (he : moved pos c d k e = some j) :
    e ≠ c ∧ (e = d ∧ j = k ∨ e ≠ d ∧ pos e = some j ∧ j ≠ k ∧ j ≠ xs.length - 1) := by
  have hec : e ≠ c := fun hec => by rw [hec, moved_self] at he; cases he
  refine ⟨hec, ?_⟩
  by_cases hed : e = d
  · rw [hed, moved_last pos (hed ▸ hec)] at he
    exact Or.inl ⟨hed, (Option.some.inj he).symm⟩
  · rw [moved_other pos hec hed] at he
    exact Or.inr ⟨hed, he, fun hjk => hec (h.inj e c k (hjk ▸ he) hk),
      fun hjl => hed (h.inj e d _ (hjl ▸ he) hd)⟩

theorem swapRemove (h : Slots xs pos) (hk : pos c = some k) (hd : pos d = some (xs.length - 1))
    (last : α) : Slots (xs.set k last).dropLast (moved pos c d k) := by
  have hlen : (xs.set k last).dropLast.length = xs.length - 1 := by
    rw [List.length_dropLast, List.length_set]
  have hkb := h.bound c k hk
  have hdc : d ≠ c → k ≠ xs.length - 1 := fun hdc hkl => hdc (h.inj d c _ hd (hkl ▸ hk))
  refine ⟨fun e j he => ?_, fun e e' j he he' => ?_, fun j hj => ?_⟩
  · rw [hlen]
    obtain ⟨hec, ⟨hed, rfl⟩ | ⟨-, hp, -, hjl⟩⟩ := h.moved_eq_some hk hd he
    · have := hdc (hed ▸ hec)
      omega
    · have := h.bound e j hp
      omega
  · obtain ⟨-, ⟨hed, hjk⟩ | ⟨-, hp, hjk, -⟩⟩ := h.moved_eq_some hk hd he <;>
      obtain ⟨-, ⟨hed', hjk'⟩ | ⟨-, hp', hjk', -⟩⟩ := h.moved_eq_some hk hd he'
    · rw [hed, hed']
    · exact absurd hjk hjk'
    · exact absurd hjk' hjk
    · exact h.inj e e' j hp hp'
  · rw [hlen] at hj
    by_cases hjk : j = k
    · -- the slot of `c` is not the last one, so the last owner is somebody else
      have hdc' : d ≠ c := fun hdc' => by
        rw [hdc', hk] at hd
        have := Option.some.inj hd
        omega
      exact ⟨d, by rw [moved_last pos hdc', hjk]⟩
    · obtain ⟨e, he⟩ := h.cover j (by omega)
      have hec : e ≠ c := fun hec => by
        rw [hec, hk] at he
        exact hjk (Option.some.inj he).symm
      have hed : e ≠ d := fun hed => by
        rw [hed, hd] at he
        have := Option.some.inj he
        omega
      exact ⟨e, by rw [moved_other pos hec hed]; exact he⟩

/-- The owners that stay keep their items. -/
theorem item_swapRemove (h : Slots xs pos) (hk : pos c = some k)
    (hd : pos d = some (xs.length - 1)) (hlast : xs.getLast? = some last) {e : κ} (he : e ≠ c) :
    item (xs.set k last).dropLast (moved pos c d k) e = item xs pos e := by
  have hkb := h.bound c k hk
  by_cases hed : e = d
  · have hdc : d ≠ c := hed ▸ he
    have hkl : k ≠ xs.length - 1 := fun hkl => hdc (h.inj d c _ hd (hkl ▸ hk))
    rw [hed, item_eq (moved_last pos hdc k), item_eq hd, ← List.getLast?_eq_getElem?, hlast,
      List.getElem?_dropLast, List.length_set, if_pos (by omega), List.getElem?_set_self hkb]
  · rw [item, moved_other pos he hed, item]
    cases hp : pos e with
    | none => rfl
    | some j =>
      have hjb := h.bound e j hp
      have hjk : k ≠ j := fun hkj => he (h.inj e c k (hkj ▸ hp) hk)
      have hjl : j ≠ xs.length - 1 := fun hjl => hed (h.inj e d _ (hjl ▸ hp) hd)
      rw [Option.bind_some, Option.bind_some, List.getElem?_dropLast, List.length_set,
        if_pos (by omega), List.getElem?_set_ne hjk]

end SwapRemove
end Slots

import Mathlib.Data.List.Nodup
import Mathlib.Logic.Function.Basic

/-!
# Lib.Heap

A heap as a partial function from addresses to blocks, and who may free them. `Owned heap l` says
that the list `l` of pointers has every allocated address exactly once: no block is lost, no
pointer dangles, and none has an alias.
-/

namespace Heap

variable {A V : Type}

theorem update_eq_some [DecidableEq A] {heap : A → Option V} {p x : A} {v : Option V} {b : V} :
    Function.update heap p v x = some b ↔ x = p ∧ v = some b ∨ x ≠ p ∧ heap x = some b := by
  by_cases h : x = p
  · subst h
    simp
  · simp [h]

theorem free_eq_some [DecidableEq A] {heap : A → Option V} {p x : A} {b : V} :
    Function.update heap p none x = some b ↔ x ≠ p ∧ heap x = some b := by
  rw [update_eq_some]
  exact or_iff_right fun h => nomatch h.2

structure Owned (heap : A → Option V) (l : List A) : Prop where
  nodup : l.Nodup
  live : ∀ p, p ∈ l ↔ heap p ≠ none

namespace Owned

variable {heap : A → Option V} {l l' : List A} {p : A}

theorem empty : Owned (fun _ => none : A → Option V) [] := ⟨List.nodup_nil, by simp⟩

theorem perm (h : Owned heap l) (hp : l'.Perm l) : Owned heap l' :=
  ⟨hp.nodup_iff.2 h.nodup, fun x => hp.mem_iff.trans (h.live x)⟩

theorem get (h : Owned heap l) (hp : p ∈ l) : ∃ v, heap p = some v :=
  Option.ne_none_iff_exists'.1 ((h.live p).1 hp)

variable [DecidableEq A]

/-- `new`, at an address that was free. -/
theorem alloc (h : Owned heap l) (hp : heap p = none) (v : V) :
    Owned (Function.update heap p (some v)) (p :: l) := by
  have hpl : p ∉ l := fun hm => (h.live p).1 hm hp
  refine ⟨List.nodup_cons.2 ⟨hpl, h.nodup⟩, fun x => ?_⟩
  by_cases hx : x = p
  · simp [hx]
  · simp [hx, h.live]

/-- `delete`, by the owner. -/
theorem free (h : Owned heap (p :: l)) : Owned (Function.update heap p none) l := by
  obtain ⟨hpl, hl⟩ := List.nodup_cons.1 h.nodup
  refine ⟨hl, fun x => ?_⟩
  by_cases hx : x = p
  · simp [hx, hpl]
  · simpa [hx] using h.live x

theorem assign (h : Owned heap l) (hp : p ∈ l) (v : V) :
    Owned (Function.update heap p (some v)) l := by
  refine ⟨h.nodup, fun x => ?_⟩
  by_cases hx : x = p
  · simp [hx, hp]
  · simp [hx, h.live]

end Owned
end Heap

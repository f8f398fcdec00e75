import Mathlib.Data.List.Chain
import Mathlib.Data.List.Nodup
import Mathlib.Logic.Function.Basic

/-!
# Lib.Ring

Circular doubly linked lists, as two maps from a cell to its neighbours.

* `Ring next prev c l` — going forward from `c` one meets the cells of `l` and then `c` again, and
  going back one meets them in the opposite order.
* `Ring.unlink` — a cell is bypassed; what the cell itself says of its neighbours stays, so that the
  two assignments can be undone.
* `Ring.link` — a cell is put in before `c`.
* `Path next p l stop` — the cells one meets from `p` on, up to `stop`.
-/

namespace TinyMuduo

open Function

variable {α : Type}

/-- `b` follows `a`. -/
def Follows (next prev : α → α) (a b : α) : Prop := next a = b ∧ prev b = a

def Path (next : α → α) : α → List α → α → Prop
  | p, [], stop => p = stop
  | p, a :: l, stop => p = a ∧ Path next (next a) l stop

/-- Forward along a chain. -/
theorem Path.of_chain {next prev : α → α} {a stop : α} {l : List α}
    (h : (a :: (l ++ [stop])).IsChain (Follows next prev)) : Path next (next a) l stop := by
  induction l generalizing a with
  | nil => exact (List.isChain_pair.1 h).1
  | cons b l ih =>
    obtain ⟨hab, h⟩ := List.isChain_cons_cons.1 h
    exact ⟨hab.1, ih h⟩

theorem Path.congr {next next' : α → α} {p stop : α} {l : List α} (h : Path next p l stop)
    (hn : ∀ a ∈ l, next' a = next a) : Path next' p l stop := by
  induction l generalizing p with
  | nil => exact h
  | cons a l ih =>
    obtain ⟨rfl, h⟩ := h
    refine ⟨rfl, ?_⟩
    rw [hn p List.mem_cons_self]
    exact ih h fun b hb => hn b (List.mem_cons_of_mem _ hb)

structure Ring (next prev : α → α) (c : α) (l : List α) : Prop where
  nodup : (c :: l).Nodup
  linked : (c :: (l ++ [c])).IsChain (Follows next prev)

namespace Ring

variable {next prev next' prev' : α → α} {c x : α} {l l₁ l₂ : List α}

theorem singleton (hn : next c = c) (hp : prev c = c) : Ring next prev c [] where
  nodup := List.nodup_singleton c
  linked := List.isChain_pair.2 ⟨hn, hp⟩

theorem not_mem (h : Ring next prev c l) : c ∉ l := (List.nodup_cons.1 h.nodup).1

/-- The ring can be entered at any of its cells. -/
theorem rotate {b : α} (h : Ring next prev c (l₁ ++ b :: l₂)) :
    Ring next prev b (l₂ ++ c :: l₁) := by
  refine ⟨?_, ?_⟩
  · have hperm : (c :: (l₁ ++ b :: l₂)).Perm (b :: (l₂ ++ c :: l₁)) := by
      rw [← List.cons_append, ← List.cons_append]
      exact List.perm_append_comm
    exact hperm.nodup_iff.1 h.nodup
  · have hl := h.linked
    rw [List.append_assoc, List.cons_append, List.isChain_cons_split] at hl
    rw [List.append_assoc, List.cons_append, List.isChain_cons_split]
    exact ⟨hl.2, hl.1⟩

theorem reverse (h : Ring next prev c l) : Ring prev next c l.reverse := by
  refine ⟨?_, ?_⟩
  · have hn := List.nodup_cons.1 h.nodup
    exact List.nodup_cons.2 ⟨fun hc => hn.1 (List.mem_reverse.1 hc), List.nodup_reverse.2 hn.2⟩
  · have hrev : c :: (l.reverse ++ [c]) = (c :: (l ++ [c])).reverse := by simp
    rw [hrev, List.isChain_reverse]
    exact h.linked.imp fun _ _ hf => ⟨hf.2, hf.1⟩

theorem congr (h : Ring next prev c l) (hn : ∀ a ∈ c :: l, next' a = next a)
    (hp : ∀ a ∈ c :: l, prev' a = prev a) : Ring next' prev' c l := by
  refine ⟨h.nodup, h.linked.imp_of_mem_imp fun a b ha hb hf => ?_⟩
  have hmem : ∀ d ∈ c :: (l ++ [c]), d ∈ c :: l := by simp [or_comm]
  exact ⟨(hn a (hmem a ha)).trans hf.1, (hp b (hmem b hb)).trans hf.2⟩

theorem next_self (h : Ring next prev c l) : next c = l.headD c := by
  have hl := h.linked
  cases l with
  | nil => exact (List.isChain_pair.1 hl).1
  | cons a l => exact (List.isChain_cons_cons.1 hl).1.1

/-- Going there and back. -/
theorem prev_next_self (h : Ring next prev c l) : prev (next c) = c := by
  have hl := h.linked
  cases l with
  | nil =>
    obtain ⟨hn, hp⟩ := List.isChain_pair.1 hl
    rw [hn, hp]
  | cons a l =>
    obtain ⟨hn, hp⟩ := (List.isChain_cons_cons.1 hl).1
    rw [hn, hp]

theorem next_mem_self (h : Ring next prev c l) : next c ∈ c :: l := by
  rw [h.next_self]
  cases l with
  | nil => exact List.mem_cons_self
  | cons a l => exact List.mem_cons_of_mem _ List.mem_cons_self

theorem enter (h : Ring next prev c l) (hx : x ∈ c :: l) :
    ∃ m, Ring next prev x m ∧ ∀ a, a ∈ x :: m ↔ a ∈ c :: l := by
  rcases List.mem_cons.1 hx with rfl | hx
  · exact ⟨l, h, fun _ => Iff.rfl⟩
  · obtain ⟨l₁, l₂, rfl⟩ := List.append_of_mem hx
    refine ⟨_, h.rotate, fun a => ?_⟩
    simp only [List.mem_cons, List.mem_append]
    tauto

theorem prev_next (h : Ring next prev c l) (hx : x ∈ c :: l) : prev (next x) = x := by
  obtain ⟨m, hm, -⟩ := h.enter hx
  exact hm.prev_next_self

theorem next_prev (h : Ring next prev c l) (hx : x ∈ c :: l) : next (prev x) = x := by
  refine h.reverse.prev_next ?_
  simpa using hx

theorem next_mem (h : Ring next prev c l) (hx : x ∈ c :: l) : next x ∈ c :: l := by
  obtain ⟨m, hm, hmem⟩ := h.enter hx
  exact (hmem _).1 hm.next_mem_self

theorem prev_mem (h : Ring next prev c l) (hx : x ∈ c :: l) : prev x ∈ c :: l := by
  have := h.reverse.next_mem (x := x) (by simpa using hx)
  simpa using this

theorem path (h : Ring next prev c l) : Path next (next c) l c := .of_chain h.linked

theorem next_eq_self_iff (h : Ring next prev c l) : next c = c ↔ l = [] := by
  rw [h.next_self]
  cases l with
  | nil => simp
  | cons a l =>
    have hne : a ≠ c := fun heq => h.not_mem (heq ▸ List.mem_cons_self)
    simp [hne]

section Edit

variable [DecidableEq α]

/-- A chain does not see what `next` says at its end, or `prev` at its beginning. -/
theorem chain_update {z y v w : α} (h : l.IsChain (Follows next prev)) (hz : z ∉ l.dropLast)
    (hy : y ∉ l.tail) :
    l.IsChain (Follows (update next z v) (update prev y w)) := by
  rw [List.isChain_iff_forall_rel_of_append_cons_cons] at h ⊢
  intro a b m₁ m₂ heq
  obtain ⟨hn, hp⟩ := h heq
  have ha : a ≠ z := by
    rintro rfl
    exact hz (by simp [heq])
  have hb : b ≠ y := by
    rintro rfl
    refine hy ?_
    cases m₁ with
    | nil | cons d m₁ => simp [heq]
  exact ⟨by rw [update_of_ne ha, hn], by rw [update_of_ne hb, hp]⟩

theorem unlink (h : Ring next prev c l) (hx : x ∈ l) :
    Ring (update next (prev x) (next x)) (update prev (next x) (prev x)) c
      (l.filter (· ≠ x)) := by
  obtain ⟨l₁, l₂, rfl⟩ := List.append_of_mem hx
  have hnodup : (c :: l₁ ++ x :: l₂).Nodup := h.nodup
  obtain ⟨hnodup₁, hnodup₂, hdisj⟩ := List.nodup_append.1 hnodup
  obtain ⟨hx₂, hnodup₂⟩ := List.nodup_cons.1 hnodup₂
  have hx₁ : x ∉ l₁ := fun hmem => hdisj x (List.mem_cons_of_mem _ hmem) x List.mem_cons_self rfl
  have hdisj' : ∀ a ∈ c :: l₁, ∀ b ∈ l₂, a ≠ b := fun a ha b hb =>
    hdisj a ha b (List.mem_cons_of_mem _ hb)
  have hfilter : (l₁ ++ x :: l₂).filter (· ≠ x) = l₁ ++ l₂ := by
    rw [List.filter_append, List.filter_cons_of_neg (by simp), List.filter_eq_self.2,
      List.filter_eq_self.2]
    · exact fun a ha => decide_eq_true fun heq => hx₂ (heq ▸ ha)
    · exact fun a ha => decide_eq_true fun heq => hx₁ (heq ▸ ha)
  -- `z` is before `x`, and `y` is behind it
  obtain ⟨A, z, hA⟩ : ∃ A z, c :: l₁ = A ++ [z] :=
    ⟨_, _, (List.dropLast_append_getLast (List.cons_ne_nil c l₁)).symm⟩
  obtain ⟨y, B, hB⟩ : ∃ y B, l₂ ++ [c] = y :: B := List.exists_cons_of_ne_nil (by simp)
  have hl : (A ++ z :: x :: y :: B).IsChain (Follows next prev) := by
    have heq : c :: (l₁ ++ x :: l₂ ++ [c]) = A ++ z :: x :: y :: B := by
      rw [← hB, List.append_cons A, ← hA]
      simp
    rw [← heq]
    exact h.linked
  obtain ⟨hA', hzx, hl⟩ := List.isChain_append_cons_cons.1 hl
  obtain ⟨hxy, hB'⟩ := List.isChain_cons_cons.1 hl
  rw [hfilter, hxy.1, hzx.2]
  refine ⟨List.nodup_append.2 ⟨hnodup₁, hnodup₂, hdisj'⟩, ?_⟩
  have heq : c :: (l₁ ++ l₂ ++ [c]) = A ++ z :: y :: B := by
    rw [← hB, List.append_cons A, ← hA]
    simp
  rw [heq]
  have hz : z ∈ c :: l₁ := by simp [hA]
  have hy : y ∈ l₂ ++ [c] := by simp [hB]
  refine List.isChain_append_cons_cons.2 ⟨chain_update hA' ?_ ?_,
    ⟨update_self .., update_self ..⟩, chain_update hB' ?_ ?_⟩
  · rw [List.dropLast_concat]
    rw [hA] at hnodup₁
    exact fun hmem => (List.nodup_append.1 hnodup₁).2.2 z hmem z (List.mem_singleton_self z) rfl
  · rw [← hA, List.tail_cons]
    intro hmem
    rcases List.mem_append.1 hy with hy | hy
    · exact hdisj' y (List.mem_cons_of_mem _ hmem) y hy rfl
    · rw [List.mem_singleton.1 hy] at hmem
      exact (List.nodup_cons.1 hnodup₁).1 hmem
  · rw [← hB, List.dropLast_concat]
    exact fun hmem => hdisj' z hz z hmem rfl
  · have hnd : (y :: B).Nodup := by
      rw [← hB]
      refine List.nodup_append.2 ⟨hnodup₂, List.nodup_singleton c, fun a ha b hb => ?_⟩
      rw [List.mem_singleton.1 hb]
      exact (hdisj' c List.mem_cons_self a ha).symm
    exact (List.nodup_cons.1 hnd).1

/-- `x` is put in before `c`. -/
theorem link (h : Ring next prev c l) (hx : x ∉ c :: l) :
    Ring (update (update next x c) (prev c) x)
      (update (update prev x (prev c)) c x) c (l ++ [x]) := by
  obtain ⟨A, z, hA⟩ : ∃ A z, c :: l = A ++ [z] :=
    ⟨_, _, (List.dropLast_append_getLast (List.cons_ne_nil c l)).symm⟩
  have hz : z ∈ c :: l := by simp [hA]
  have hl : (A ++ z :: [c]).IsChain (Follows next prev) := by
    have heq : c :: (l ++ [c]) = A ++ z :: [c] := by
      rw [List.append_cons A, ← hA]
      simp
    rw [← heq]
    exact h.linked
  obtain ⟨hA', hzc, -⟩ := List.isChain_append_cons_cons.1 hl
  have hxz : x ≠ z := fun heq => hx (heq ▸ hz)
  have hxc : x ≠ c := fun heq => hx (heq ▸ List.mem_cons_self)
  rw [hzc.2]
  refine ⟨?_, ?_⟩
  · rw [← List.cons_append]
    refine List.nodup_append.2 ⟨h.nodup, List.nodup_singleton x, fun a ha b hb heq => hx ?_⟩
    rw [← List.mem_singleton.1 hb, ← heq]
    exact ha
  have heq : c :: (l ++ [x] ++ [c]) = A ++ z :: x :: [c] := by
    rw [List.append_cons A, ← hA]
    simp
  rw [heq]
  refine List.isChain_append_cons_cons.2 ⟨chain_update (chain_update hA' ?_ ?_) ?_ ?_, ⟨?_, ?_⟩,
    List.isChain_pair.2 ⟨?_, ?_⟩⟩
  · rw [List.dropLast_concat]
    exact fun hmem => hx (hA ▸ List.mem_append_left _ hmem)
  · rw [← hA]
    exact fun hmem => hx (List.mem_of_mem_tail hmem)
  · rw [List.dropLast_concat]
    have hnodup := h.nodup
    rw [hA] at hnodup
    exact fun hmem => (List.nodup_append.1 hnodup).2.2 z hmem z (List.mem_singleton_self z) rfl
  · rw [← hA]
    exact h.not_mem
  · exact update_self ..
  · rw [update_of_ne hxc, update_self]
  · rw [update_of_ne hxz, update_self]
  · exact update_self ..

end Edit
end Ring
end TinyMuduo

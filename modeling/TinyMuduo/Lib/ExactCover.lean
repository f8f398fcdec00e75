import Mathlib.Data.List.Nodup
import Mathlib.Data.List.Perm.Basic

/-!
# Lib.ExactCover

Exact covers. There are columns to cover and options, each of which covers some of them; a cover is
a choice of options that together cover every column once.

`IsCover.cons` and `IsCover.branch` are the two directions of one step of a search: whatever column
one looks at, one of the options for it is chosen, and the columns of that option, with all the
other options for these, are out of the question from then on.
-/

namespace TinyMuduo
namespace ExactCover

variable {ι κ : Type}

structure IsCover (columns : ι → List κ) (cols : List κ) (opts sol : List ι) : Prop where
  mem : ∀ o ∈ sol, o ∈ opts
  perm : (sol.flatMap columns).Perm cols

variable {columns : ι → List κ} {cols ds : List κ} {opts sol : List ι} {o : ι} {c : κ}

theorem IsCover.nil : IsCover columns [] opts [] where
  mem _ h := by cases h
  perm := .nil

/-- The columns under other names. -/
theorem IsCover.map {κ' : Type} {columns' : ι → List κ'} (f : κ → κ')
    (h : IsCover columns cols opts sol) (hf : ∀ o ∈ opts, (columns o).map f = columns' o) :
    IsCover columns' (cols.map f) opts sol where
  mem := h.mem
  perm := by
    have hperm := h.perm.map f
    rwa [List.map_flatMap, List.flatMap_congr fun o ho => hf o (h.mem o ho)] at hperm

/-! ## One step of a search -/

section

variable [DecidableEq κ]

/-- The columns that are left when `ds` are covered. -/
def uncovered (cols ds : List κ) : List κ := cols.filter (· ∉ ds)

/-- The options that cover none of `ds`. -/
def clear (columns : ι → List κ) (opts : List ι) (ds : List κ) : List ι :=
  opts.filter fun o => ∀ d ∈ ds, d ∉ columns o

theorem mem_uncovered {d : κ} : d ∈ uncovered cols ds ↔ d ∈ cols ∧ d ∉ ds := by
  simp [uncovered]

theorem mem_clear : o ∈ clear columns opts ds ↔ o ∈ opts ∧ ∀ d ∈ ds, d ∉ columns o := by
  simp [clear]

/-- The columns of an option go first. -/
theorem append_uncovered_perm (hcols : cols.Nodup) (hds : ds.Nodup) (hsub : ds ⊆ cols) :
    (ds ++ uncovered cols ds).Perm cols := by
  refine (List.perm_ext_iff_of_nodup ?_ hcols).2 fun d => ?_
  · refine List.nodup_append.2 ⟨hds, hcols.filter _, fun a ha b hb heq => ?_⟩
    exact (mem_uncovered.1 hb).2 (heq ▸ ha)
  · rw [List.mem_append, mem_uncovered]
    by_cases hd : d ∈ ds
    · simp [hd, hsub hd]
    · simp [hd]

theorem IsCover.cons (hcols : cols.Nodup) (ho : o ∈ opts) (hnodup : (columns o).Nodup)
    (hsub : columns o ⊆ cols)
    (h : IsCover columns (uncovered cols (columns o)) (clear columns opts (columns o)) sol) :
    IsCover columns cols opts (o :: sol) where
  mem p hp := by
    rcases List.mem_cons.1 hp with rfl | hp
    · exact ho
    · exact (mem_clear.1 (h.mem p hp)).1
  perm := by
    rw [List.flatMap_cons]
    exact (h.perm.append_left _).trans (append_uncovered_perm hcols hnodup hsub)

theorem IsCover.branch (h : IsCover columns cols opts sol) (hcols : cols.Nodup) (hc : c ∈ cols) :
    ∃ o ∈ opts, c ∈ columns o ∧
      ∃ sol',
        IsCover columns (uncovered cols (columns o)) (clear columns opts (columns o)) sol' := by
  obtain ⟨o, ho, hco⟩ := List.mem_flatMap.1 (h.perm.mem_iff.2 hc)
  obtain ⟨s₁, s₂, rfl⟩ := List.append_of_mem ho
  have hperm : (columns o ++ (s₁ ++ s₂).flatMap columns).Perm cols := by
    refine List.Perm.trans ?_ h.perm
    rw [← List.flatMap_cons]
    exact (List.perm_middle.flatMap_right columns).symm
  have hdisj := (List.nodup_append.1 (hperm.nodup_iff.2 hcols)).2.2
  have hout : ∀ p ∈ s₁ ++ s₂, ∀ d ∈ columns p, d ∉ columns o := fun p hp d hd hdo =>
    hdisj d hdo d (List.mem_flatMap.2 ⟨p, hp, hd⟩) rfl
  refine ⟨o, h.mem o ho, hco, s₁ ++ s₂, fun p hp => ?_, ?_⟩
  · refine mem_clear.2 ⟨h.mem p ?_, fun d hdo hdp => hout p hp d hdp hdo⟩
    rcases List.mem_append.1 hp with hp | hp
    · exact List.mem_append_left _ hp
    · exact List.mem_append_right _ (List.mem_cons_of_mem _ hp)
  · have hrest := hperm.filter fun d => decide (d ∉ columns o)
    rw [List.filter_append, List.filter_eq_nil_iff.2, List.nil_append,
      List.filter_eq_self.2] at hrest
    · exact hrest
    · intro d hd
      obtain ⟨p, hp, hdp⟩ := List.mem_flatMap.1 hd
      exact decide_eq_true (hout p hp d hdp)
    · intro d hd
      simpa using hd

end

end ExactCover
end TinyMuduo

import TinyMuduo.Sudoku.Matrix

/-!
# Sudoku.Search

`solve` finds an exact cover if there is one.

Each call gives back the links it was called with, or returns `true` at once; so the loop over the
rows of a column goes on where it was. The depth of the recursion is bounded by the number of
columns that are not covered.
-/

namespace TinyMuduo
namespace Sudoku

open ExactCover Result Nodes

/-! ## Covering leaves the rows alone -/

namespace Nodes

variable {n n' : Nodes} {c : Ptr}

/-- What loops of `unlink` and `relink` keep. -/
structure Kept (n n' : Nodes) : Prop where
  closed : n'.Closed
  static : Static n n'

theorem Kept.refl (hc : n.Closed) : Kept n n := ⟨hc, .refl n⟩

theorem Kept.trans {n'' : Nodes} (h : Kept n n') (h' : Kept n' n'') : Kept n n'' :=
  ⟨h'.closed, h.static.trans h'.static⟩

theorem Closed.cover (hc : n.Closed) (hself : n.col c = c) (hx : n.cover c = .ok n') :
    Kept n n' := by
  obtain ⟨hclosed, hstatic⟩ := hc.unlinkColumn hself
  refine each_keeps (P := Kept n) (fun n₁ row n₂ h₁ hrow => ?_) ⟨hclosed, hstatic⟩ hx
  refine each_keeps (P := Kept n) (fun n₁ j n₂ h₁ hj => ?_) h₁ hrow
  cases hj
  have ha := h₁.closed.unlink (Nat.ne_of_lt (Nat.lt_succ_self (n₁.col j)))
  exact h₁.trans ⟨ha.closed, ha.static⟩

theorem Closed.relinkColumn (hc : n.Closed) (hself : n.col c = c) :
    Kept n (n.relinkColumn c) := by
  have hleft : n.col (Function.update n.left (n.right c) c c) =
      Function.update n.left (n.right c) c c := by
    by_cases hj : c = n.right c
    · rw [← hj, Function.update_self, hself]
    · rw [Function.update_of_ne hj, hc.left c hself]
  obtain ⟨hclosed, hstatic⟩ := hc.columns (hc.right c hself) hleft hself hself
  exact ⟨hclosed, hstatic⟩

theorem Closed.uncover (hc : n.Closed) (hself : n.col c = c) (hx : n.uncover c = .ok n') :
    Kept n n' := by
  obtain ⟨n₁, hloop, heq⟩ := bind_eq_ok hx
  cases heq
  have h₁ : Kept n n₁ := by
    refine each_keeps (P := Kept n) (fun n₁ row n₂ h₁ hrow => ?_) (.refl hc) hloop
    refine each_keeps (P := Kept n) (fun n₁ j n₂ h₁ hj => ?_) h₁ hrow
    cases hj
    have ha := h₁.closed.relink (Nat.ne_of_lt (Nat.lt_succ_self (n₁.col j)))
    exact h₁.trans ⟨ha.closed, ha.static⟩
  refine h₁.trans (h₁.closed.relinkColumn ?_)
  rw [h₁.static.col]
  exact hself

end Nodes

variable {ι : Type} {m : Layout ι} {n n' n₁ : Nodes} {root c row : Ptr} {cols : List Ptr}
  {opts os : List ι} {o : ι}

/-- A loop over the other nodes of a row that does something to their columns. -/
theorem Row.each_column {f : Nodes → Ptr → Except Fault Nodes} {next : Nodes → Ptr → Ptr}
    (hr : Row m n o) (hc : n.Closed)
    (hf : ∀ n₁ d n₂, n₁.Closed → n₁.col d = d → f n₁ d = .ok n₂ → Kept n₁ n₂)
    (hnext : ∀ n₁, Kept n n₁ → ∀ d ∈ m.columns o, next n₁ (m.node o d) = next n (m.node o d))
    {ds : List Ptr} (hds : ds ⊆ m.columns o) (hshort : ds.length < kMaxNodes) {p stop : Ptr}
    (hpath : Path (next n) p (ds.map (m.node o)) stop) (hstop : stop ∉ ds.map (m.node o))
    (hx : ds.foldlM f n = .ok n') :
    each next stop (fun n j => f n (n.col j)) kMaxNodes n p = .ok n' := by
  have hbody : ∀ n₁, Kept n n₁ → ∀ d ∈ m.columns o,
      n₁.col (m.node o d) = d ∧ n₁.col d = d := by
    intro n₁ h₁ d hd
    rw [h₁.static.col]
    exact ⟨hr.col d hd, hr.head d hd⟩
  refine each_eq (P := Kept n) (fun n₁ j n₂ h₁ hj hx => ?_) (fun n₁ j h₁ hj => ?_) hpath hstop
    (by simpa using hshort) (.refl hc) ?_
  · obtain ⟨d, hd, rfl⟩ := List.mem_map.1 hj
    obtain ⟨hcol, hself⟩ := hbody n₁ h₁ d (hds hd)
    rw [hcol] at hx
    exact h₁.trans (hf n₁ d n₂ h₁.closed hself hx)
  · obtain ⟨d, hd, rfl⟩ := List.mem_map.1 hj
    exact hnext n₁ h₁ d (hds hd)
  · suffices hloop : ∀ es ⊆ m.columns o, ∀ n₁, Kept n n₁ → es.foldlM f n₁ = .ok n' →
        (es.map (m.node o)).foldlM (fun n j => f n (n.col j)) n₁ = .ok n' from
      hloop ds hds n (.refl hc) hx
    intro es
    induction es with
    | nil => exact fun _ _ _ hx => hx
    | cons d es ih =>
      intro hsub n₁ h₁ hx
      obtain ⟨hcol, hself⟩ := hbody n₁ h₁ d (hsub List.mem_cons_self)
      rw [List.foldlM_cons] at hx
      obtain ⟨n₂, hd, hx⟩ := bind_eq_ok hx
      rw [List.map_cons, List.foldlM_cons, hcol, hd, ok_bind]
      exact ih (fun e he => hsub (List.mem_cons_of_mem _ he)) n₂
        (h₁.trans (hf n₁ d n₂ h₁.closed hself hd)) hx

namespace Rep

theorem left_root (h : Rep m n root cols opts) : n.left root = root ↔ cols = [] := by
  rw [h.header.reverse.next_eq_self_iff, List.reverse_eq_nil_iff]

theorem scanColumns {turns : Nat} {size : Int} {cc : Ptr} {l : List Ptr} (hc : c ∈ cols)
    (hl : l ⊆ cols) (hpath : Path n.right cc l root) (hroot : root ∉ l) (ht : l.length < turns) :
    ∃ c' ∈ cols, n.scanColumns root turns c size cc = .ok c' := by
  induction l generalizing turns c size cc with
  | nil =>
    obtain ⟨turns, rfl⟩ := Nat.exists_eq_succ_of_ne_zero (Nat.ne_of_gt ht)
    have hend : cc = root := hpath
    exact ⟨c, hc, by rw [Nodes.scanColumns, if_pos hend]⟩
  | cons a l ih =>
    obtain ⟨turns, rfl⟩ := Nat.exists_eq_succ_of_ne_zero (Nat.ne_of_gt (Nat.zero_lt_of_lt ht))
    obtain ⟨rfl, hpath⟩ := hpath
    have hne : cc ≠ root := fun heq => hroot (heq ▸ List.mem_cons_self)
    have hcc : cc ∈ cols := hl List.mem_cons_self
    have hl' : l ⊆ cols := fun a ha => hl (List.mem_cons_of_mem _ ha)
    have hroot' : root ∉ l := fun hmem => hroot (List.mem_cons_of_mem _ hmem)
    rw [Nodes.scanColumns, if_neg hne]
    split
    · split
      · exact ⟨cc, hcc, rfl⟩
      · exact ih hcc hl' hpath hroot' (Nat.lt_of_succ_lt_succ ht)
    · exact ih hc hl' hpath hroot' (Nat.lt_of_succ_lt_succ ht)

theorem get_min_column (h : Rep m n root cols opts) (hne : cols ≠ [])
    (hk : cols.length < kMaxNodes) : ∃ c ∈ cols, n.get_min_column root = .ok c := by
  obtain ⟨c, l, rfl⟩ := List.exists_cons_of_ne_nil hne
  obtain ⟨hfirst, hpath⟩ := h.header.path
  rw [Nodes.get_min_column, hfirst]
  split
  · exact scanColumns List.mem_cons_self (List.subset_cons_self c l) hpath
      (fun hmem => h.header.not_mem (List.mem_cons_of_mem _ hmem)) (Nat.lt_of_succ_lt hk)
  · exact ⟨c, List.mem_cons_self, rfl⟩

/-- The rest of a row is covered after its column `c`, and uncovered before. -/
theorem cover_row (h : Rep m n root cols opts) (ho : o ∈ opts) (hco : c ∈ m.columns o)
    (h₁ : Rep m n₁ root (uncovered cols [c]) (clear m.columns opts [c])) (hs : Static n n₁) :
    ∃ n₂, each right (m.node o c) (fun n j => n.cover (n.col j)) kMaxNodes n₁
        (n₁.right (m.node o c)) = .ok n₂ ∧
      each left (m.node o c) (fun n j => n.uncover (n.col j)) kMaxNodes n₂
        (n₂.left (m.node o c)) = .ok n₁ ∧
      Rep m n₂ root (uncovered cols (m.columns o)) (clear m.columns opts (m.columns o)) ∧
      Static n₁ n₂ := by
  have hr := h.row o ho
  have hr₁ := hr.static hs
  have hmem : ∀ d, d ∈ others c (m.columns o) ↔ d ∈ m.columns o ∧ d ≠ c := fun d =>
    mem_others hr.nodup hco
  have hsub : others c (m.columns o) ⊆ m.columns o := fun d hd => ((hmem d).1 hd).1
  have hnodup : (others c (m.columns o)).Nodup :=
    (List.nodup_cons.1 (hr.ring c hco).nodup).2.of_map
  have hshort : (others c (m.columns o)).length < kMaxNodes :=
    Nat.lt_of_lt_of_le (length_others hr.nodup hco) hr.short
  obtain ⟨n₂, hcover, huncover, hrep, hs₂⟩ := h₁.covers hnodup fun d hd => by
    obtain ⟨hd, hdc⟩ := (hmem d).1 hd
    exact mem_uncovered.2 ⟨h.within o ho hd, by simpa using hdc⟩
  have hr₂ := hr₁.static hs₂
  have hiff : ∀ d, d ∈ c :: others c (m.columns o) ↔ d ∈ m.columns o := by
    intro d
    rw [List.mem_cons, hmem]
    by_cases hdc : d = c
    · subst hdc
      simp [hco]
    · simp [hdc]
  rw [uncovered_uncovered, clear_clear] at hrep
  rw [uncovered_congr hiff, clear_congr hiff] at hrep
  refine ⟨n₂, ?_, ?_, hrep, hs₂⟩
  · exact hr₁.each_column h₁.closed (fun _ _ _ hc hself hx => hc.cover hself hx)
      (fun n' hk d hd => hk.static.right _ (hr₁.not_head hd)) hsub hshort
      (hr₁.ring c hco).path (hr₁.ring c hco).not_mem hcover
  · have hpath := (hr₂.ring c hco).reverse.path
    have hstop := (hr₂.ring c hco).reverse.not_mem
    rw [Layout.rest, ← List.map_reverse] at hpath hstop
    exact hr₂.each_column hrep.closed (fun _ _ _ hc hself hx => hc.uncover hself hx)
      (fun n' hk d hd => hk.static.left _ (hr₂.not_head hd))
      (fun d hd => hsub (List.mem_reverse.1 hd)) (by simpa using hshort) hpath hstop huncover

end Rep

/-! ## The search -/

namespace SudokuSolver

variable {s : SudokuSolver} {turns : Nat} {r : Except Fault (Bool × SudokuSolver)}

/-- There is a cover, and `solve` has put a node of each of its options on the stack. -/
def Success (m : Layout ι) (n : Nodes) (s : SudokuSolver) (cols : List Ptr) (opts : List ι)
    (r : Except Fault (Bool × SudokuSolver)) : Prop :=
  ∃ sol ps n', IsCover m.columns cols opts sol ∧
    List.Forall₂ (fun p o => ∃ c ∈ m.columns o, p = m.node o c) ps sol ∧ Static n n' ∧
    r = (fill n' s.inout (s.stack ++ ps)).map fun board =>
      (true, { s with nodes := n', stack := s.stack ++ ps, inout := board })

/-- There is no cover, and nothing has changed. -/
def Failure (m : Layout ι) (s : SudokuSolver) (cols : List Ptr) (opts : List ι)
    (r : Except Fault (Bool × SudokuSolver)) : Prop :=
  (∀ sol, ¬ IsCover m.columns cols opts sol) ∧ r = .ok (false, s)

/-- The loop over the rows, from the options `os` on. -/
theorem tryRows_spec {solve : SudokuSolver → Except Fault (Bool × SudokuSolver)}
    (hsolve : ∀ (s' : SudokuSolver) cols' opts', Rep m s'.nodes s'.root cols' opts' →
      cols'.length < cols.length →
      Success m s'.nodes s' cols' opts' (solve s') ∨ Failure m s' cols' opts' (solve s'))
    (h : Rep m n s.root cols opts) (hc : c ∈ cols) (huncover : s.nodes.uncover c = .ok n)
    (h₁ : Rep m s.nodes s.root (uncovered cols [c]) (clear m.columns opts [c]))
    (hs : Static n s.nodes) (hos : os ⊆ m.through opts c)
    (hpath : Path s.nodes.down row (os.map (m.node · c)) c) (hstop : c ∉ os.map (m.node · c))
    (ht : os.length < turns) :
    Success m n s cols opts (tryRows solve c turns s row) ∨
      (∀ o ∈ os, ∀ sol, ¬ IsCover m.columns (uncovered cols (m.columns o))
        (clear m.columns opts (m.columns o)) sol) ∧
      tryRows solve c turns s row = .ok (false, { s with nodes := n }) := by
  induction os generalizing row turns with
  | nil =>
    obtain ⟨turns, rfl⟩ := Nat.exists_eq_succ_of_ne_zero (Nat.ne_of_gt ht)
    have hend : row = c := hpath
    refine .inr ⟨fun o ho => (by cases ho), ?_⟩
    rw [tryRows, if_pos hend, huncover, ok_bind]
  | cons o os ih =>
    obtain ⟨turns, rfl⟩ := Nat.exists_eq_succ_of_ne_zero (Nat.ne_of_gt (Nat.zero_lt_of_lt ht))
    obtain ⟨rfl, hpath⟩ := hpath
    obtain ⟨ho, hco⟩ := Layout.mem_through.1 (hos List.mem_cons_self)
    have hr := h.row o ho
    obtain ⟨n₂, hcovers, huncovers, h₂, hs₂⟩ := h.cover_row ho hco h₁ hs
    have hlen : (uncovered cols (m.columns o)).length < cols.length := by
      refine List.length_filter_lt_length_iff_exists.2 ⟨c, hc, ?_⟩
      simpa using hco
    rw [tryRows, if_neg (hr.node c hco), hcovers, ok_bind]
    rcases hsolve { s with stack := s.stack ++ [m.node o c], nodes := n₂ } _ _ h₂ hlen with
      ⟨sol, ps, n', hsol, hps, hs', heq⟩ | ⟨hnone, heq⟩
    · refine .inl ⟨o :: sol, m.node o c :: ps, n', ?_, .cons ⟨c, hco, rfl⟩ hps,
        hs.trans (hs₂.trans hs'), ?_⟩
      · exact .cons (List.nodup_cons.1 h.header.nodup).2 ho hr.nodup (h.within o ho) hsol
      · rw [heq]
        simp only [List.append_assoc, List.singleton_append]
        cases fill n' s.inout (s.stack ++ m.node o c :: ps) <;> rfl
    · have hback :
          { s with stack := (s.stack ++ [m.node o c]).dropLast, nodes := s.nodes } = s := by
        rw [List.dropLast_concat]
      rw [heq, ok_bind]
      simp only [Bool.false_eq_true, if_false]
      rw [huncovers, ok_bind, hback]
      rcases ih (fun p hp => hos (List.mem_cons_of_mem _ hp)) hpath
        (fun hmem => hstop (List.mem_cons_of_mem _ hmem)) (Nat.lt_of_succ_lt_succ ht) with
        hfound | ⟨hrest, hret⟩
      · exact .inl hfound
      · refine .inr ⟨fun p hp => ?_, hret⟩
        rcases List.mem_cons.1 hp with rfl | hp
        · exact hnone
        · exact hrest p hp

/-- `solve` returns `true` if and only if there is a cover, and leaves the links as they were if
there is none. -/
theorem solve_spec (h : Rep m s.nodes s.root cols opts) (hk : cols.length < kMaxNodes)
    (ht : cols.length < turns) :
    Success m s.nodes s cols opts (s.solve turns) ∨ Failure m s cols opts (s.solve turns) := by
  induction turns generalizing s cols opts with
  | zero => cases ht
  | succ turns ih =>
    rw [solve]
    by_cases hroot : s.nodes.left s.root = s.root
    · obtain rfl := h.left_root.1 hroot
      refine .inl ⟨[], [], s.nodes, .nil, .nil, .refl _, ?_⟩
      rw [if_pos hroot, List.append_nil]
      rfl
    · have hne : cols ≠ [] := fun hnil => hroot (h.left_root.2 hnil)
      obtain ⟨c, hc, hmin⟩ := h.get_min_column hne hk
      obtain ⟨n₁, hcover, huncover, h₁, hs, hdown⟩ := h.cover hc
      rw [if_neg hroot, hmin, ok_bind, hcover, ok_bind]
      have hring := h.vert c hc
      have hpath : Path n₁.down (n₁.down c) (m.vert opts c) c := by
        rw [hdown c (h.self c hc)]
        exact hring.path.congr fun p hp => hdown p (h.verts.col c hc p (List.mem_cons_of_mem _ hp))
      have hfew : (m.through opts c).length < kMaxNodes :=
        Nat.lt_of_le_of_lt (List.length_filter_le _ _) h.few
      rcases tryRows_spec (s := { s with nodes := n₁ })
        (fun s' cols' opts' hrep hlt => ih hrep (Nat.lt_trans hlt hk)
          (Nat.lt_of_lt_of_le hlt (Nat.le_of_lt_succ ht))) h hc huncover h₁ hs
        (List.Subset.refl _) hpath hring.not_mem hfew with hfound | ⟨hnone, hret⟩
      · exact .inl hfound
      · refine .inr ⟨fun sol hsol => ?_, hret⟩
        obtain ⟨o, ho, hco, sol', hsol'⟩ := hsol.branch (List.nodup_cons.1 h.header.nodup).2 hc
        exact hnone o (Layout.mem_through.2 ⟨ho, hco⟩) sol' hsol'

end SudokuSolver
end Sudoku
end TinyMuduo

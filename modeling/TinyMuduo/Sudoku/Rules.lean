import Mathlib.Data.Finset.Card
import Mathlib.Data.Int.Interval
import TinyMuduo.Sudoku.Create

/-!
# Sudoku.Rules

The rules of the game, and that the covers of the matrix are the solutions of the board.

A house is a row, a column or a box; each has nine cells. `Solution` says that no value is in a
house twice. The matrix asks for something else, that every value is in every house, and because of
the nine cells these are the same (`Solution.surj`, `distinct_of_surj`). Nothing is assumed about
the values on the board: one that breaks the rules already has no solution and no cover.

* `House.marked_iff` — what the arrays of the constructor say.
* `solution_of_cover`, `cover_of_solution` — the two directions.
-/

namespace TinyMuduo
namespace Sudoku

open ExactCover SudokuSolver

/-! ## Houses -/

inductive House where
  | row
  | col
  | box
  deriving DecidableEq, Repr

namespace House

/-- The number of the house that a cell is in. -/
def of : House → Nat → Nat
  | row => SudokuSolver.row
  | col => SudokuSolver.col
  | box => SudokuSolver.box

/-- The name of the column for a value in a house. -/
def name : House → Int → Int → Int
  | row => get_row_col
  | col => get_col_col
  | box => get_box_col

def marked : House → Marks → Nat → Int → Bool
  | row => Marks.rows
  | col => Marks.cols
  | box => Marks.boxes

def cells (h : House) (r : Nat) : Finset Nat := (Finset.range kCells).filter (h.of · = r)

variable {h h' : House} {board : Board} {i j r r' v v' : Nat}

theorem of_lt (h : House) (hi : i < kCells) : h.of i < 9 := by
  cases h with
  | row => exact row_lt hi
  | col => exact col_lt i
  | box => exact box_lt hi

theorem mem_cells : i ∈ h.cells r ↔ i < kCells ∧ h.of i = r := by
  rw [cells, Finset.mem_filter, Finset.mem_range]

theorem card_cells (h : House) (hr : r < 9) : (h.cells r).card = 9 := by
  have hall : ∀ r < 9, (h.cells r).card = 9 := by
    cases h <;> decide
  exact hall r hr

/-- The hundreds of a name tell what house it is for. -/
theorem name_eq (h : House) (r v : Int) :
    ∃ t : Int, (t = 1 ∨ t = 2 ∨ t = 3) ∧ h.name r v = t * 100 + r * 10 + v ∧
      (t = 1 ↔ h = row) ∧ (t = 2 ↔ h = col) := by
  cases h with
  | row => exact ⟨1, by simp, rfl, by simp⟩
  | col => exact ⟨2, by simp, rfl, by simp⟩
  | box => exact ⟨3, by simp, rfl, by simp⟩

theorem name_inj (hr : r < 9) (hr' : r' < 9) (hv : v ∈ values) (hv' : v' ∈ values)
    (heq : h.name r v = h'.name r' v') : h = h' ∧ r = r' ∧ v = v' := by
  rw [mem_values] at hv hv'
  obtain ⟨t, ht, hname, hrow, hcol⟩ := h.name_eq r v
  obtain ⟨t', ht', hname', hrow', hcol'⟩ := h'.name_eq r' v'
  rw [hname, hname'] at heq
  have htt : t = t' := by omega
  refine ⟨?_, by omega, by omega⟩
  rw [htt] at hrow hcol
  cases h <;> cases h' <;> simp_all

theorem name_ge (h : House) (r v : Nat) : 100 ≤ h.name r v := by
  obtain ⟨t, ht, hname, -, -⟩ := h.name_eq r v
  omega

theorem name_ne_cell (hi : i < kCells) : h.name r v ≠ (i : Int) := by
  have := h.name_ge r v
  rw [kCells] at hi
  omega

theorem exists_iff {p : House → Prop} : (∃ h, p h) ↔ p row ∨ p col ∨ p box := by
  constructor
  · rintro ⟨h, hp⟩
    cases h with
    | row => exact .inl hp
    | col => exact .inr (.inl hp)
    | box => exact .inr (.inr hp)
  · rintro (hp | hp | hp)
    · exact ⟨row, hp⟩
    · exact ⟨col, hp⟩
    · exact ⟨box, hp⟩

/-! ## What the constructor knows of the houses -/

theorem mark_iff {m : Nat → Int → Bool} {v w : Int} :
    mark m i v r w = true ↔ i = r ∧ v = w ∨ m r w = true := by
  unfold mark
  split
  next h => simp [h.1, h.2]
  next h =>
    refine ⟨.inr, fun hm => hm.resolve_left fun heq => h ⟨heq.1.symm, heq.2.symm⟩⟩

theorem marked_foldl (h : House) (board : Board) (l : List Nat) (m : Marks) (r : Nat) (v : Int) :
    h.marked (l.foldl (fun m i =>
      { rows := mark m.rows (SudokuSolver.row i) (board i)
        cols := mark m.cols (SudokuSolver.col i) (board i)
        boxes := mark m.boxes (SudokuSolver.box i) (board i) }) m) r v = true ↔
      (∃ i ∈ l, h.of i = r ∧ board i = v) ∨ h.marked m r v = true := by
  induction l generalizing m with
  | nil => simp
  | cons a l ih =>
    rw [List.foldl_cons, ih]
    have hstep : h.marked
        { rows := mark m.rows (SudokuSolver.row a) (board a)
          cols := mark m.cols (SudokuSolver.col a) (board a)
          boxes := mark m.boxes (SudokuSolver.box a) (board a) } r v = true ↔
        (h.of a = r ∧ board a = v) ∨ h.marked m r v = true := by
      cases h <;> exact mark_iff
    rw [hstep, List.exists_mem_cons_iff, or_left_comm, or_assoc]

/-- A value is marked if a cell of the house has it. -/
theorem marked_iff {v : Int} :
    h.marked (marks board) r v = true ↔ ∃ i < kCells, h.of i = r ∧ board i = v := by
  have hnone : h.marked ⟨fun _ _ => false, fun _ _ => false, fun _ _ => false⟩ r v = false := by
    cases h <;> rfl
  rw [marks, marked_foldl, hnone]
  simp

end House

variable {board full : Board} {sol : List Choice} {k : Int}

theorem mem_namesOf {o : Choice} :
    k ∈ namesOf o ↔ k = o.1 ∨ ∃ h : House, k = h.name (h.of o.1) o.2 := by
  rw [House.exists_iff, namesOf]
  simp [House.name, House.of]

theorem mem_columnNames_iff :
    k ∈ columnNames board ↔ (∃ i : Nat, i < kCells ∧ board i = 0 ∧ k = i) ∨
      ∃ r < 9, ∃ v ∈ values, ∃ h : House, h.marked (marks board) r v = false ∧ k = h.name r v := by
  simp only [mem_columnNames, House.exists_iff, House.marked, House.name]

theorem mem_choices_iff {i v : Nat} :
    (i, v) ∈ choices board ↔ i < kCells ∧ board i = 0 ∧ v ∈ values ∧
      ∀ h : House, h.marked (marks board) (h.of i) v = false := by
  rw [mem_choices]
  constructor
  · rintro ⟨hi, hb, hv, hr, hc, hx⟩
    refine ⟨hi, hb, hv, fun h => ?_⟩
    cases h with
    | row => exact hr
    | col => exact hc
    | box => exact hx
  · rintro ⟨hi, hb, hv, hh⟩
    exact ⟨hi, hb, hv, hh .row, hh .col, hh .box⟩

/-- The name of a cell is in the names of a choice only if it is for the cell. -/
theorem cell_mem_namesOf {o : Choice} {i : Nat} (hi : i < kCells) :
    (i : Int) ∈ namesOf o ↔ i = o.1 := by
  rw [mem_namesOf]
  constructor
  · rintro (h | ⟨h, hname⟩)
    · exact Nat.cast_injective h
    · exact absurd hname.symm (House.name_ne_cell hi)
  · rintro rfl
    exact .inl rfl

theorem name_mem_namesOf {o : Choice} (ho : o ∈ choices board) {h : House} {r v : Nat} (hr : r < 9)
    (hv : v ∈ values) : h.name r v ∈ namesOf o ↔ h.of o.1 = r ∧ o.2 = v := by
  obtain ⟨hi, -, hv', -⟩ := mem_choices_iff.1 ho
  rw [mem_namesOf]
  constructor
  · rintro (heq | ⟨h', heq⟩)
    · exact absurd heq (House.name_ne_cell hi)
    · obtain ⟨rfl, rfl, rfl⟩ := House.name_inj hr (h'.of_lt hi) hv hv' heq
      exact ⟨rfl, rfl⟩
  · rintro ⟨rfl, rfl⟩
    exact .inr ⟨h, rfl⟩

/-! ## Solutions -/

/-- Every cell has a value, those on the board are kept, and no value is in a house twice. -/
structure Solution (board full : Board) : Prop where
  digit : ∀ i < kCells, 1 ≤ full i ∧ full i ≤ 9
  given : ∀ i < kCells, board i ≠ 0 → full i = board i
  distinct : ∀ (h : House) (i j : Nat), i < kCells → j < kCells → h.of i = h.of j →
    full i = full j → i = j

/-- A value for each of nine cells, and all different: every value is there. -/
theorem Solution.surj (hs : Solution board full) (h : House) {r : Nat} (hr : r < 9) {v : Int}
    (hv : 1 ≤ v ∧ v ≤ 9) : ∃ i < kCells, h.of i = r ∧ full i = v := by
  have hmaps : Set.MapsTo full (h.cells r) (Finset.Icc (1 : Int) 9) := by
    intro i hi
    rw [Finset.mem_coe, Finset.mem_Icc]
    exact hs.digit i (House.mem_cells.1 hi).1
  have hinj : Set.InjOn full (h.cells r) := by
    intro i hi j hj heq
    obtain ⟨hi', hof⟩ := House.mem_cells.1 hi
    obtain ⟨hj', hof'⟩ := House.mem_cells.1 hj
    exact hs.distinct h i j hi' hj' (hof.trans hof'.symm) heq
  have hcard : (Finset.Icc (1 : Int) 9).card ≤ (h.cells r).card := by
    rw [h.card_cells hr]
    decide
  obtain ⟨i, hi, heq⟩ := Finset.surjOn_of_injOn_of_card_le full hmaps hinj hcard
    (Finset.mem_coe.2 (Finset.mem_Icc.2 hv))
  obtain ⟨hi, hof⟩ := House.mem_cells.1 hi
  exact ⟨i, hi, hof, heq⟩

/-- Every value is there, in nine cells: no value is there twice. -/
theorem distinct_of_surj (hdigit : ∀ i < kCells, 1 ≤ full i ∧ full i ≤ 9) (h : House)
    (hsurj : ∀ r < 9, ∀ v : Int, 1 ≤ v ∧ v ≤ 9 → ∃ i < kCells, h.of i = r ∧ full i = v) (i j : Nat)
    (hi : i < kCells) (hj : j < kCells) (hof : h.of i = h.of j) (heq : full i = full j) :
    i = j := by
  have hmaps : Set.MapsTo full (h.cells (h.of i)) (Finset.Icc (1 : Int) 9) := by
    intro a ha
    rw [Finset.mem_coe, Finset.mem_Icc]
    exact hdigit a (House.mem_cells.1 ha).1
  have hsurj' : Set.SurjOn full (h.cells (h.of i)) (Finset.Icc (1 : Int) 9) := by
    intro v hv
    obtain ⟨a, ha, haof, hav⟩ := hsurj (h.of i) (h.of_lt hi) v (Finset.mem_Icc.1 hv)
    exact ⟨a, House.mem_cells.2 ⟨ha, haof⟩, hav⟩
  have hcard : (h.cells (h.of i)).card ≤ (Finset.Icc (1 : Int) 9).card := by
    rw [h.card_cells (h.of_lt hi)]
    decide
  exact Finset.injOn_of_surjOn_of_card_le full hmaps hsurj' hcard (House.mem_cells.2 ⟨hi, rfl⟩)
    (House.mem_cells.2 ⟨hj, hof.symm⟩) heq

/-! ## Covers -/

/-- The board with the values that were chosen. -/
def write (board : Board) (sol : List Choice) : Board :=
  sol.foldl (fun board o => Function.update board o.1 (o.2 : Int)) board

theorem write_of_not_mem {i : Nat} (hi : ∀ o ∈ sol, o.1 ≠ i) : write board sol i = board i := by
  induction sol generalizing board with
  | nil => rfl
  | cons o sol ih =>
    have ho := hi o List.mem_cons_self
    rw [write, List.foldl_cons]
    exact (ih fun p hp => hi p (List.mem_cons_of_mem _ hp)).trans
      (Function.update_of_ne ho.symm _ _)

theorem write_of_mem (hsol : sol.Pairwise fun o p => o.1 ≠ p.1) {o : Choice} (ho : o ∈ sol) :
    write board sol o.1 = o.2 := by
  induction sol generalizing board with
  | nil => cases ho
  | cons p sol ih =>
    obtain ⟨hp, hsol⟩ := List.pairwise_cons.1 hsol
    rw [write, List.foldl_cons]
    rcases List.mem_cons.1 ho with rfl | ho
    · exact (write_of_not_mem fun q hq => (hp q hq).symm).trans (Function.update_self ..)
    · exact ih hsol ho

/-- No two choices of a cover are for the same cell. -/
theorem cells_pairwise (hcover : IsCover namesOf (columnNames board) (choices board) sol) :
    sol.Pairwise fun o p => o.1 ≠ p.1 := by
  have hnodup := hcover.perm.nodup_iff.2 (allNames_nodup.sublist (columnNames_sublist board))
  refine (List.nodup_flatMap.1 hnodup).2.imp fun {o p} hdisj heq => ?_
  refine hdisj (mem_namesOf.2 (.inl rfl)) (mem_namesOf.2 (.inl ?_))
  rw [heq]

/-- A cover gives every house every value. -/
theorem solution_of_cover (hboard : ∀ i < kCells, 0 ≤ board i ∧ board i ≤ 9)
    (hcover : IsCover namesOf (columnNames board) (choices board) sol) :
    Solution board (write board sol) := by
  have hcells := cells_pairwise hcover
  have hgiven : ∀ i < kCells, board i ≠ 0 → write board sol i = board i := by
    intro i _ hne
    refine write_of_not_mem fun o ho heq => hne ?_
    rw [← heq]
    exact (mem_choices_iff.1 (hcover.mem o ho)).2.1
  have hdigit : ∀ i < kCells, 1 ≤ write board sol i ∧ write board sol i ≤ 9 := by
    intro i hi
    by_cases hb : board i = 0
    · have hname : (i : Int) ∈ columnNames board := mem_columnNames_iff.2 (.inl ⟨i, hi, hb, rfl⟩)
      obtain ⟨o, ho, hmem⟩ := List.mem_flatMap.1 (hcover.perm.mem_iff.2 hname)
      rw [(cell_mem_namesOf hi).1 hmem, write_of_mem hcells ho]
      have hv := mem_values.1 (mem_choices_iff.1 (hcover.mem o ho)).2.2.1
      omega
    · rw [hgiven i hi hb]
      have := hboard i hi
      omega
  refine ⟨hdigit, hgiven, fun h => distinct_of_surj hdigit h fun r hr v hv => ?_⟩
  obtain ⟨w, rfl⟩ := Int.eq_ofNat_of_zero_le (Int.le_trans Int.one_nonneg hv.1)
  have hw : w ∈ values := mem_values.2 ⟨by omega, by omega⟩
  cases hm : h.marked (marks board) r w with
  | true =>
    -- the value is on the board
    obtain ⟨i, hi, hof, hval⟩ := House.marked_iff.1 hm
    exact ⟨i, hi, hof, (hgiven i hi (by omega)).trans hval⟩
  | false =>
    -- a choice covers the column for the value
    have hname : h.name r w ∈ columnNames board :=
      mem_columnNames_iff.2 (.inr ⟨r, hr, w, hw, h, hm, rfl⟩)
    obtain ⟨o, ho, hmem⟩ := List.mem_flatMap.1 (hcover.perm.mem_iff.2 hname)
    have ho' := hcover.mem o ho
    obtain ⟨hof, rfl⟩ := (name_mem_namesOf ho' hr hw).1 hmem
    exact ⟨o.1, (mem_choices_iff.1 ho').1, hof, write_of_mem hcells ho⟩

/-- The choices that lead to `full`. -/
def chosen (board full : Board) : List Choice :=
  ((List.range kCells).filter fun i => board i = 0).map fun i => (i, (full i).toNat)

theorem mem_chosen {o : Choice} :
    o ∈ chosen board full ↔ o.1 < kCells ∧ board o.1 = 0 ∧ o.2 = (full o.1).toNat := by
  obtain ⟨i, v⟩ := o
  simp only [chosen, List.mem_map, List.mem_filter, List.mem_range, decide_eq_true_eq,
    Prod.mk.injEq]
  constructor
  · rintro ⟨j, ⟨hj, hb⟩, rfl, rfl⟩
    exact ⟨hj, hb, rfl⟩
  · rintro ⟨hi, hb, rfl⟩
    exact ⟨i, ⟨hi, hb⟩, rfl, rfl⟩

theorem Solution.chosen_mem (hs : Solution board full) {o : Choice} (ho : o ∈ chosen board full) :
    o ∈ choices board := by
  obtain ⟨i, v⟩ := o
  obtain ⟨hi, hb, hv⟩ := mem_chosen.1 ho
  dsimp only at hi hb hv
  subst hv
  have hd := hs.digit i hi
  refine mem_choices_iff.2 ⟨hi, hb, mem_values.2 (by omega), fun h => ?_⟩
  cases hm : h.marked (marks board) (h.of i) (full i).toNat with
  | false => rfl
  | true =>
    -- the value would be in the house twice
    obtain ⟨j, hj, hof, hval⟩ := House.marked_iff.1 hm
    have hne : board j ≠ 0 := by omega
    have heq : full j = full i := by
      rw [hs.given j hj hne, hval]
      omega
    rw [hs.distinct h j i hj hi hof heq] at hne
    exact absurd hb hne

/-- A solution is a cover. -/
theorem cover_of_solution (hs : Solution board full) :
    IsCover namesOf (columnNames board) (choices board) (chosen board full) := by
  refine ⟨fun o ho => hs.chosen_mem ho, ?_⟩
  have hnames : (columnNames board).Nodup := allNames_nodup.sublist (columnNames_sublist board)
  refine (List.perm_ext_iff_of_nodup ?_ hnames).2 fun k => ⟨fun hk => ?_, fun hk => ?_⟩
  · -- two choices have no name in common
    refine List.nodup_flatMap.2 ⟨fun o ho => (fits (hs.chosen_mem ho)).nodup, ?_⟩
    have hrange : (chosen board full).Pairwise fun o p => o.1 ≠ p.1 := by
      rw [chosen, List.pairwise_map]
      exact List.nodup_range.filter _
    refine hrange.imp_of_mem fun {o p} ho hp hne k hk hk' => hne ?_
    have hp' := hs.chosen_mem hp
    obtain ⟨hi, -, hvo⟩ := mem_chosen.1 ho
    obtain ⟨hj, -, hvp⟩ := mem_chosen.1 hp
    have hv := (mem_choices_iff.1 (hs.chosen_mem ho)).2.2.1
    rcases mem_namesOf.1 hk with rfl | ⟨h, rfl⟩
    · exact (cell_mem_namesOf hi).1 hk'
    · obtain ⟨hof, hval⟩ := (name_mem_namesOf hp' (h.of_lt hi) hv).1 hk'
      have ho := hs.digit o.1 hi
      have hp := hs.digit p.1 hj
      exact hs.distinct h o.1 p.1 hi hj hof.symm (by omega)
  · obtain ⟨o, ho, hmem⟩ := List.mem_flatMap.1 hk
    exact (fits (hs.chosen_mem ho)).mem k hmem
  · refine List.mem_flatMap.2 ?_
    rcases mem_columnNames_iff.1 hk with ⟨i, hi, hb, rfl⟩ | ⟨r, hr, v, hv, h, hm, rfl⟩
    · exact ⟨(i, (full i).toNat), mem_chosen.2 ⟨hi, hb, rfl⟩, mem_namesOf.2 (.inl rfl)⟩
    · -- the value is in the house, and not on the board
      have hv' := mem_values.1 hv
      obtain ⟨i, hi, hof, hval⟩ := hs.surj h hr (v := v) (by omega)
      have hb : board i = 0 := by
        by_contra hne
        have hmarked := House.marked_iff.2 ⟨i, hi, hof, (hs.given i hi hne).symm.trans hval⟩
        cases hm.symm.trans hmarked
      have ho : (i, v) ∈ chosen board full := mem_chosen.2 ⟨hi, hb, by rw [hval]; rfl⟩
      exact ⟨(i, v), ho, (name_mem_namesOf (hs.chosen_mem ho) hr hv).2 ⟨hof, rfl⟩⟩

end Sudoku
end TinyMuduo

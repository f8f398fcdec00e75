import TinyMuduo.Sudoku.Rules
import TinyMuduo.Sudoku.Search

/-!
# Sudoku.Correct

`solveSudoku` answers every puzzle, and answers it right.

The matrix that the constructor links up is that of the board (`create_spec`), `solve` finds a cover
of it if there is one (`solve_spec`), and the covers are the solutions of the board
(`solution_of_cover`, `cover_of_solution`). What is left is between them: the columns of the matrix
are pointers and not names, and the values are read off the rows on the stack.
-/

namespace TinyMuduo
namespace Sudoku

open ExactCover Result

/-! ## A row is read -/

namespace Nodes

variable {n : Nodes} {turns : Nat} {i v : Int}

theorem readRow_known (n : Nodes) (turns : Nat) (hi : 0 ≤ i) (hv : 0 ≤ v) (p : Ptr) :
    n.readRow (turns + 1) i v p = .ok (i, v) := by
  rw [readRow, if_neg]
  omega

/-- With the value known, the loop goes on to the node of the cell. -/
theorem readRow_to_cell {l₁ l₂ : List Ptr} {p q stop : Ptr}
    (hpath : Path n.right p (l₁ ++ q :: l₂) stop)
    (hvals : ∀ j ∈ l₁, 100 ≤ n.name j ∧ (n.name j).tmod 10 = v) (hq : n.name q = i)
    (hi : 0 ≤ i ∧ i < 100) (hv : 0 ≤ v) (ht : l₁.length + 1 < turns) :
    n.readRow turns (-1) v p = .ok (i, v) := by
  induction l₁ generalizing p turns with
  | nil =>
    obtain ⟨turns, rfl⟩ : ∃ t, turns = t + 2 := ⟨turns - 2, by simp at ht; omega⟩
    obtain ⟨rfl, -⟩ := hpath
    rw [readRow, if_pos (.inl rfl), hq, if_pos hi.2]
    exact readRow_known n turns hi.1 hv _
  | cons j l₁ ih =>
    obtain ⟨turns, rfl⟩ : ∃ t, turns = t + 1 := ⟨turns - 1, by omega⟩
    obtain ⟨rfl, hpath⟩ := hpath
    obtain ⟨hge, hmod⟩ := hvals p List.mem_cons_self
    rw [readRow, if_pos (.inl rfl), if_neg (Int.not_lt.2 hge), hmod]
    exact ih hpath (fun j hj => hvals j (List.mem_cons_of_mem _ hj)) (Nat.lt_of_succ_lt_succ ht)

end Nodes

open Nodes SudokuSolver

/-- The row of a choice, with the names of its nodes. -/
structure Labelled (names : List Int) (m : Layout Choice) (n : Nodes) (o : Choice) : Prop where
  row : Row m n o
  columns : m.columns o = columnsOf names o
  name : ∀ k ∈ namesOf o, n.name (m.node o (ptr names k)) = k
  cell : o.1 < kCells
  value : o.2 ∈ values

namespace Labelled

variable {names : List Int} {m : Layout Choice} {n n' : Nodes} {o : Choice} {c : Ptr}

theorem static (h : Labelled names m n o) (hs : Static n n') : Labelled names m n' o where
  row := h.row.static hs
  columns := h.columns
  name := by
    rw [hs.name]
    exact h.name
  cell := h.cell
  value := h.value

theorem mem_columns (h : Labelled names m n o) :
    c ∈ m.columns o ↔ ∃ k ∈ namesOf o, ptr names k = c := by
  rw [h.columns, columnsOf, List.mem_map]

/-- A node that is not for the cell has the value in its name. -/
theorem value_of_ne (h : Labelled names m n o) (hc : c ∈ m.columns o) (hne : c ≠ ptr names o.1) :
    100 ≤ n.name (m.node o c) ∧ (n.name (m.node o c)).tmod 10 = o.2 := by
  obtain ⟨k, hk, rfl⟩ := h.mem_columns.1 hc
  rw [h.name k hk]
  rcases mem_namesOf.1 hk with rfl | ⟨hs, rfl⟩
  · exact absurd rfl hne
  · refine ⟨hs.name_ge _ _, ?_⟩
    have hge := hs.name_ge (hs.of o.1) o.2
    obtain ⟨t, -, hname, -, -⟩ := hs.name_eq (hs.of o.1) o.2
    have hv := mem_values.1 h.value
    rw [Int.tmod_eq_emod_of_nonneg (by omega), hname]
    omega

theorem cell_mem (h : Labelled names m n o) : ptr names o.1 ∈ m.columns o :=
  h.mem_columns.2 ⟨o.1, mem_namesOf.2 (.inl rfl), rfl⟩

theorem length_columns (h : Labelled names m n o) : (m.columns o).length = 4 := by
  rw [h.columns]
  rfl

/-- Behind the node of a column there are others. -/
theorem rest_ne_nil (h : Labelled names m n o) (hc : c ∈ m.columns o) : m.rest o c ≠ [] := by
  intro hnil
  have hall : ∀ d ∈ m.columns o, d = c := by
    intro d hd
    by_contra hdc
    have hmem := (h.row.mem_rest hc).2 ⟨d, hd, hdc, rfl⟩
    rw [hnil] at hmem
    cases hmem
  have hle := (List.nodup_iff_count_le_one.1 h.row.nodup) c
  rw [List.count_eq_length.2 fun d hd => (hall d hd).symm, h.length_columns] at hle
  omega

theorem length_rest (h : Labelled names m n o) (hc : c ∈ m.columns o) :
    (m.rest o c).length < 4 := by
  rw [Layout.rest, List.length_map, ← h.length_columns]
  exact length_others h.row.nodup hc

/-- Wherever the loop of `solve` enters the row, it finds the cell and the value. -/
theorem readRow (h : Labelled names m n o) (hc : c ∈ m.columns o) {turns : Nat} (ht : 5 < turns) :
    n.readRow turns (-1) (-1) (m.node o c) = .ok ((o.1 : Int), (o.2 : Int)) := by
  obtain ⟨turns, rfl⟩ : ∃ t, turns = t + 3 := ⟨turns - 3, by omega⟩
  have hring := h.row.ring c hc
  have hlen := h.length_rest hc
  have hi : 0 ≤ (o.1 : Int) ∧ (o.1 : Int) < 100 := by
    have := h.cell
    rw [kCells] at this
    omega
  have hcell : n.name (m.node o (ptr names o.1)) = o.1 := h.name o.1 (mem_namesOf.2 (.inl rfl))
  have hvalues : ∀ j ∈ m.rest o c, j ≠ m.node o (ptr names o.1) →
      100 ≤ n.name j ∧ (n.name j).tmod 10 = o.2 := by
    intro j hj hne
    obtain ⟨d, hd, -, rfl⟩ := (h.row.mem_rest hc).1 hj
    exact h.value_of_ne hd fun heq => hne (by rw [heq])
  by_cases hfirst : c = ptr names o.1
  · -- the cell comes first, and the next node tells the value
    subst hfirst
    obtain ⟨j, l, hl⟩ := List.exists_cons_of_ne_nil (h.rest_ne_nil hc)
    have hpath := hring.path
    have hnotin := hring.not_mem
    rw [hl] at hpath hnotin
    obtain ⟨hge, hmod⟩ := hvalues j (hl ▸ List.mem_cons_self) fun heq =>
      hnotin (heq ▸ List.mem_cons_self)
    rw [Nodes.readRow, if_pos (.inl rfl), hcell, if_pos hi.2, hpath.1, Nodes.readRow,
      if_pos (.inr rfl), if_neg (Int.not_lt.2 hge), hmod]
    exact readRow_known n turns hi.1 (Int.natCast_nonneg _) _
  · -- a value comes first, and the loop goes on to the cell
    obtain ⟨hge, hmod⟩ := h.value_of_ne hc hfirst
    have hmem : m.node o (ptr names o.1) ∈ m.rest o c :=
      (h.row.mem_rest hc).2 ⟨_, h.cell_mem, fun heq => hfirst heq.symm, rfl⟩
    obtain ⟨l₁, l₂, hl⟩ := List.append_of_mem hmem
    have hpath := hring.path
    have hnodup := (List.nodup_cons.1 hring.nodup).2
    rw [hl] at hpath hnodup hlen
    have hnotin : m.node o (ptr names o.1) ∉ l₁ := fun hmem =>
      (List.nodup_append.1 hnodup).2.2 _ hmem _ List.mem_cons_self rfl
    rw [Nodes.readRow, if_pos (.inl rfl), if_neg (Int.not_lt.2 hge), hmod]
    refine readRow_to_cell hpath (fun j hj => ?_) hcell hi (Int.natCast_nonneg _) ?_
    · exact hvalues j (hl ▸ List.mem_append_left _ hj) fun heq => hnotin (heq ▸ hj)
    · rw [List.length_append, List.length_cons] at hlen
      omega

end Labelled

namespace SudokuSolver

variable {names : List Int} {m : Layout Choice} {n : Nodes} {board : Board} {sol : List Choice}

/-- The values of the rows on the stack are written. -/
theorem fill_eq {ps : List Ptr} (hsol : ∀ o ∈ sol, Labelled names m n o)
    (hps : List.Forall₂ (fun p o => ∃ c ∈ m.columns o, p = m.node o c) ps sol) :
    fill n board ps = .ok (write board sol) := by
  induction hps generalizing board with
  | nil => rfl
  | @cons p o ps sol hp _ ih =>
    obtain ⟨c, hc, rfl⟩ := hp
    have ho := hsol o List.mem_cons_self
    have hcell : 0 ≤ (o.1 : Int) ∧ (o.1 : Int) < kCells := by
      have := ho.cell
      omega
    rw [fill, List.foldlM_cons, ho.readRow hc (by decide), ok_bind]
    dsimp only
    rw [ensure_pos hcell, ok_bind, ok_bind, Int.toNat_natCast]
    exact ih fun p hp => hsol p (List.mem_cons_of_mem _ hp)

/-! ## Pointers and names -/

theorem map_ptr (hnames : names.Nodup) : names.map (ptr names) = List.range' 1 names.length := by
  refine List.ext_getElem (by simp) fun i h₁ h₂ => ?_
  rw [List.length_map] at h₁
  rw [List.getElem_map, List.getElem_range', ptr, hnames.idxOf_getElem i h₁, Nat.one_mul,
    Nat.add_comm]

/-- The name of a column. -/
def nameOf (names : List Int) (c : Ptr) : Int := names.getD (c - 1) 0

theorem nameOf_ptr {k : Int} (hk : k ∈ names) : nameOf names (ptr names k) = k := by
  rw [nameOf, ptr, Nat.add_sub_cancel, List.getD_eq_getElem?_getD, List.getElem?_idxOf hk]
  rfl

theorem map_nameOf {ks : List Int} (hks : ∀ k ∈ ks, k ∈ names) :
    (ks.map (ptr names)).map (nameOf names) = ks := by
  rw [List.map_map]
  exact (List.map_congr_left fun k hk => nameOf_ptr (hks k hk)).trans (List.map_id ks)

theorem isCover_iff {opts : List Choice} (hnames : names.Nodup)
    (hopts : ∀ o ∈ opts, Fits names o) :
    IsCover (columnsOf names) (List.range' 1 names.length) opts sol ↔
      IsCover namesOf names opts sol := by
  rw [← map_ptr hnames]
  constructor
  · intro h
    have hmap := h.map (nameOf names) fun o ho => map_nameOf (hopts o ho).mem
    rwa [map_nameOf fun k hk => hk] at hmap
  · intro h
    exact h.map (ptr names) fun o _ => rfl

end SudokuSolver

/-! ## The answer -/

/-- The text of a solution. -/
structure Solves (puzzle answer : List Byte) : Prop where
  length : answer.length = kCells
  solution : Solution (cellOf puzzle) (cellOf answer)

theorem Solution.congr {board full full' : Board} (hs : Solution board full)
    (h : ∀ i < kCells, full' i = full i) : Solution board full' where
  digit i hi := by
    rw [h i hi]
    exact hs.digit i hi
  given i hi hne := by
    rw [h i hi]
    exact hs.given i hi hne
  distinct hs' i j hi hj hof heq := by
    rw [h i hi, h j hj] at heq
    exact hs.distinct hs' i j hi hj hof heq

theorem toInt_digit {x : Int} (hx : 1 ≤ x ∧ x ≤ 9) : (BitVec.ofInt 8 (x + 48)).toInt - 48 = x := by
  rw [BitVec.toInt_ofInt, Int.bmod_eq_of_le (by omega) (by omega)]
  omega

/-- The text that is made of a board. -/
theorem cellOf_text (board : Board) {i : Nat} (hi : i < kCells)
    (hdigit : 1 ≤ board i ∧ board i ≤ 9) :
    cellOf ((List.range kCells).map fun i => BitVec.ofInt 8 (board i + 48)) i = board i := by
  have hget : ((List.range kCells).map fun i => BitVec.ofInt 8 (board i + 48)).getD i 0 =
      BitVec.ofInt 8 (board i + 48) := by
    rw [List.getD_eq_getElem?_getD, List.getElem?_map, List.getElem?_range hi]
    rfl
  rw [cellOf, hget, toInt_digit hdigit]

/-- A board that was solved, or that has no solution. -/
theorem solve_board (board : Board) (hboard : ∀ i < kCells, 0 ≤ board i ∧ board i ≤ 9) :
    ∃ s found s', create board = .ok s ∧ s.solve kMaxNodes = .ok (found, s') ∧
      if found = true then Solution board s'.inout else ∀ full, ¬ Solution board full := by
  obtain ⟨s, m, hs, hb⟩ := create_spec board
  have hnodup : (columnNames board).Nodup := allNames_nodup.sublist (columnNames_sublist board)
  have hlen : (List.range' 1 (columnNames board).length).length < kMaxNodes := by
    have := (columnNames_sublist board).length_le
    rw [allNames_length] at this
    rw [List.length_range', kMaxNodes]
    omega
  have hcover : ∀ sol, IsCover m.columns (List.range' 1 (columnNames board).length) (choices board)
      sol ↔ IsCover namesOf (columnNames board) (choices board) sol := by
    intro sol
    rw [hb.layout]
    exact isCover_iff hnodup fun o ho => fits ho
  have hrep := hb.rep
  rw [← hb.root] at hrep
  rcases solve_spec hrep hlen hlen with ⟨sol, ps, n', hsol, hps, hstatic, hx⟩ | ⟨hnone, hx⟩
  · have hsol' := (hcover sol).1 hsol
    have hlabel : ∀ o ∈ sol, Labelled (columnNames board) m n' o := by
      intro o ho
      have ho' := hsol.mem o ho
      obtain ⟨hi, -, hv, -⟩ := mem_choices_iff.1 ho'
      exact Labelled.static ⟨hb.rep.row o ho', by rw [hb.layout], hb.node o ho', hi, hv⟩ hstatic
    rw [hb.stack, List.nil_append, hb.inout, fill_eq hlabel hps] at hx
    exact ⟨s, true, _, hs, hx, solution_of_cover hboard hsol'⟩
  · exact ⟨s, false, s, hs, hx, fun full hfull =>
      hnone _ ((hcover _).2 (cover_of_solution hfull))⟩

/-- **The solver is right.** For every text of 81 characters `solveSudoku` returns, without a failed
assertion, an index out of bounds or a loop that does not end. What it returns is a solution of the
puzzle; or it is `kNoSolution`, and the puzzle has no solution, be it that a character is no digit
or that the digits break the rules already. -/
theorem solveSudoku_correct (puzzle : List Byte) (hlen : puzzle.length = kCells) :
    ∃ text, solveSudoku puzzle = .ok text ∧
      (Solves puzzle text ∨ text = kNoSolution ∧ ∀ answer, ¬ Solves puzzle answer) := by
  rw [solveSudoku, ensure_pos hlen, ok_bind]
  split
  next hvalid =>
    obtain ⟨s, found, s', hs, hx, hfound⟩ := solve_board (cellOf puzzle) hvalid
    rw [hs, ok_bind, hx, ok_bind]
    cases found with
    | true =>
      have hsol : Solution (cellOf puzzle) s'.inout := hfound
      refine ⟨_, rfl, .inl ⟨by simp, hsol.congr fun i hi => ?_⟩⟩
      exact cellOf_text s'.inout hi (hsol.digit i hi)
    | false => exact ⟨_, rfl, .inr ⟨rfl, fun answer h => hfound _ h.solution⟩⟩
  next hvalid =>
    refine ⟨_, rfl, .inr ⟨rfl, fun answer h => hvalid fun i hi => ?_⟩⟩
    by_cases hzero : cellOf puzzle i = 0
    · omega
    · have hgiven := h.solution.given i hi hzero
      have hdigit := h.solution.digit i hi
      omega

/-- Seventeen digits are given. -/
def seventeen : List Byte := ascii
  ['0', '0', '0', '0', '0', '0', '0', '1', '0', '4', '0', '0', '0', '0', '0', '0', '0', '0',
    '0', '2', '0', '0', '0', '0', '0', '0', '0', '0', '0', '0', '0', '5', '0', '4', '0', '7',
    '0', '0', '8', '0', '0', '0', '3', '0', '0', '0', '0', '1', '0', '9', '0', '0', '0', '0',
    '3', '0', '0', '4', '0', '0', '2', '0', '0', '0', '5', '0', '1', '0', '0', '0', '0', '0',
    '0', '0', '0', '8', '0', '6', '0', '0', '0']

def seventeenSolved : List Byte := ascii
  ['6', '9', '3', '7', '8', '4', '5', '1', '2', '4', '8', '7', '5', '1', '2', '9', '3', '6',
    '1', '2', '5', '9', '6', '3', '8', '7', '4', '9', '3', '2', '6', '5', '1', '4', '8', '7',
    '5', '6', '8', '2', '4', '7', '3', '9', '1', '7', '4', '1', '3', '9', '8', '6', '2', '5',
    '3', '1', '9', '4', '7', '5', '2', '6', '8', '8', '5', '6', '1', '2', '9', '7', '4', '3',
    '2', '7', '4', '8', '3', '6', '1', '5', '9']

theorem solves_seventeen : Solves seventeen seventeenSolved where
  length := by decide
  solution :=
    { digit := by decide +kernel
      given := by decide +kernel
      distinct := by
        have hall : ∀ h ∈ [House.row, .col, .box], ∀ i < kCells, ∀ j < kCells, h.of i = h.of j →
            cellOf seventeenSolved i = cellOf seventeenSolved j → i = j := by decide +kernel
        intro h i j hi hj
        exact hall h (by cases h <;> simp) i hi j hj }

/-- So the solver finds a solution. -/
theorem solveSudoku_correct_seventeen :
    ∃ text, solveSudoku seventeen = .ok text ∧ Solves seventeen text := by
  obtain ⟨text, hx, hsolves | ⟨-, hnone⟩⟩ := solveSudoku_correct seventeen (by decide)
  · exact ⟨text, hx, hsolves⟩
  · exact absurd solves_seventeen (hnone _)

end Sudoku
end TinyMuduo

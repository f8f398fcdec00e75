import Mathlib.Data.List.Flatten
import Mathlib.Data.List.ProdSigma
import TinyMuduo.Sudoku.Build

/-!
# Sudoku.Create

The constructor of `SudokuSolver`: which matrix it links up, and that it does so without a fault.

The columns are for the cells without a value, and for the values that are not in a row, a column or
a box of the board yet. An option, `(i, v)`, is to write `v` into the cell `i`. The nodes of
`nodes_` are just enough.
-/

namespace TinyMuduo
namespace Sudoku

open ExactCover Result Nodes Function

/-- A cell, and a value for it. -/
abbrev Choice := Nat × Nat

namespace SudokuSolver

variable {board : Board} {s : SudokuSolver} {names : List Int} {k : Int}

/-! ## What is linked up -/

def columnNames (board : Board) : List Int :=
  let m := marks board
  ((List.range kCells).flatMap fun i => if board i = 0 then [(i : Int)] else []) ++
    (List.range 9).flatMap fun i => values.flatMap fun (v : Nat) =>
      (if !m.rows i v then [get_row_col i v] else []) ++
        ((if !m.cols i v then [get_col_col i v] else []) ++
          if !m.boxes i v then [get_box_col i v] else [])

def choices (board : Board) : List Choice :=
  let m := marks board
  (List.range kCells).flatMap fun i =>
    if board i = 0 then
      values.flatMap fun (v : Nat) =>
        if !(m.rows (row i) v || m.cols (col i) v || m.boxes (box i) v) then [(i, v)] else []
    else []

/-- The names of the columns that a choice covers. -/
def namesOf (o : Choice) : List Int :=
  [(o.1 : Int), get_row_col (row o.1) o.2, get_col_col (col o.1) o.2, get_box_col (box o.1) o.2]

section Loops

variable {α β : Type} {f : SudokuSolver → β → Except Fault SudokuSolver}

theorem foldlM_flatMap (g : α → List β) (l : List α) (s : SudokuSolver) :
    (l.flatMap g).foldlM f s = l.foldlM (fun s a => (g a).foldlM f s) s := by
  induction l generalizing s with
  | nil => rfl
  | cons a l ih =>
    rw [List.flatMap_cons, List.foldlM_append, List.foldlM_cons]
    exact bind_congr ih

theorem foldlM_ite {p : Prop} [Decidable p] (l : List β) (s : SudokuSolver) :
    (if p then l else []).foldlM f s = if p then l.foldlM f s else .ok s := by
  split <;> rfl

theorem foldlM_singleton (b : β) (s : SudokuSolver) : [b].foldlM f s = f s b := bind_pure _

end Loops

/-- The loops of the constructor, over one list of columns and one of options. -/
theorem create_eq (board : Board) :
    create board = (do
      let (root, s) ← new_column ⟨0, board, fun _ => none, [], .zero, 0⟩ 0
      let h := s.nodes.setRight root root
      let s ← (columnNames board).foldlM append_column
        { s with root := root, nodes := h.setLeft root root }
      (choices board).foldlM (fun s o => s.appendRow o.1 o.2) s) := by
  simp only [create, columnNames, choices, List.foldlM_append, foldlM_flatMap, foldlM_ite,
    foldlM_singleton, appendIf, decide_eq_true_eq, bind_assoc]

/-! ## Columns -/

/-- After some columns. -/
structure Headed (board : Board) (s : SudokuSolver) (names : List Int) : Prop where
  root : s.root = 0
  inout : s.inout = board
  stack : s.stack = []
  cur_node : s.cur_node = names.length + 1
  self : s.nodes.col 0 = 0
  header : Ring s.nodes.right s.nodes.left 0 (List.range' 1 names.length)
  grown : Grown s.nodes s.cur_node (List.range' 1 names.length) fun _ => []
  columns : ∀ k, s.columns k = if k ∈ names then some (names.idxOf k + 1) else none
  name : ∀ k ∈ names, s.nodes.name (names.idxOf k + 1) = k

theorem Headed.append_column (h : Headed board s names) (hk : k ∉ names) (hbounds : 0 ≤ k ∧ k < 400)
    (hroom : names.length + 1 < kMaxNodes) :
    ∃ s', s.append_column k = .ok s' ∧ Headed board s' (names ++ [k]) := by
  have hnone : s.columns k = none := by rw [h.columns, if_neg hk]
  have hcur : s.cur_node < kMaxNodes := by rwa [h.cur_node]
  have hroot : s.root < s.cur_node := by
    rw [h.root, h.cur_node]
    exact Nat.succ_pos _
  have hhead : Ring s.nodes.right s.nodes.left s.root (List.range' 1 names.length) := by
    rw [h.root]
    exact h.header
  have hself : s.nodes.col s.root = s.root := by rw [h.root, h.self]
  have hrange : List.range' 1 (names ++ [k]).length =
      List.range' 1 names.length ++ [s.cur_node] := by
    rw [List.length_append, List.length_singleton, List.range'_concat, h.cur_node, Nat.one_mul,
      Nat.add_comm 1]
  obtain ⟨hgrown, hring⟩ := h.grown.append_column hhead hroot hself k
  have hne : s.root ≠ s.cur_node := Nat.ne_of_lt hroot
  refine ⟨{ s with
    nodes := (s.nodes.create s.cur_node s.cur_node k).put_left s.root s.cur_node
    cur_node := s.cur_node + 1
    columns := update s.columns k (some s.cur_node) }, ?_, ?_⟩
  · rw [SudokuSolver.append_column, ensure_pos hbounds, ok_bind, ensure_pos hnone, ok_bind,
      new_column, ensure_pos hcur]
    rfl
  · refine ⟨h.root, h.inout, h.stack, ?_, ?_, ?_, ?_, fun j => ?_, fun j hj => ?_⟩
    · dsimp only
      rw [h.cur_node, List.length_append, List.length_singleton]
    · dsimp only
      rw [Grown.create_put_left_eq hne]
      dsimp only
      rw [← h.root, update_of_ne hne, hself]
    · rw [hrange, ← h.root]
      exact hring
    · rw [hrange]
      exact hgrown
    · dsimp only
      by_cases hjk : j = k
      · subst hjk
        rw [update_self, if_pos (by simp), List.idxOf_append_of_notMem hk,
          List.idxOf_cons_self, h.cur_node, Nat.add_zero]
      · rw [update_of_ne hjk, h.columns]
        by_cases hj : j ∈ names
        · rw [if_pos hj, if_pos (List.mem_append_left _ hj), List.idxOf_append_of_mem hj]
        · rw [if_neg hj, if_neg (by simp [hj, hjk])]
    · dsimp only
      rw [Grown.create_put_left_eq hne]
      dsimp only
      rcases List.mem_append.1 hj with hj | hj
      · have hlt : names.idxOf j + 1 ≠ s.cur_node := by
          rw [h.cur_node]
          have := List.idxOf_lt_length_iff.2 hj
          omega
        rw [List.idxOf_append_of_mem hj, update_of_ne hlt, h.name j hj]
      · rw [List.mem_singleton.1 hj, List.idxOf_append_of_notMem hk, List.idxOf_cons_self,
          Nat.add_zero, ← h.cur_node, update_self]

theorem Headed.append_columns (h : Headed board s names) {ks : List Int} (hks : (names ++ ks).Nodup)
    (hbounds : ∀ k ∈ ks, 0 ≤ k ∧ k < 400) (hroom : (names ++ ks).length < kMaxNodes) :
    ∃ s', ks.foldlM SudokuSolver.append_column s = .ok s' ∧ Headed board s' (names ++ ks) := by
  induction ks generalizing s names with
  | nil =>
    refine ⟨s, rfl, ?_⟩
    rwa [List.append_nil]
  | cons k ks ih =>
    have hk : k ∉ names := fun hmem =>
      (List.nodup_append.1 hks).2.2 k hmem k List.mem_cons_self rfl
    have hroom' : names.length + 1 < kMaxNodes := by
      simp only [List.length_append, List.length_cons] at hroom
      omega
    obtain ⟨s₁, hs₁, h₁⟩ := h.append_column hk (hbounds k List.mem_cons_self) hroom'
    rw [List.append_cons] at hks hroom
    obtain ⟨s₂, hs₂, h₂⟩ := ih h₁ hks (fun j hj => hbounds j (List.mem_cons_of_mem _ hj)) hroom
    refine ⟨s₂, ?_, ?_⟩
    · rw [List.foldlM_cons, hs₁, ok_bind, hs₂]
    · rw [List.append_cons]
      exact h₂

/-! ## Rows -/

theorem new_row_eq {c : Ptr} (hbounds : 0 ≤ k ∧ k < 400) (hc : s.columns k = some c)
    (hcur : s.cur_node < kMaxNodes) :
    s.new_row k = .ok (s.cur_node, { s with
      nodes := (s.nodes.create s.cur_node c k).put_up c s.cur_node
      cur_node := s.cur_node + 1 }) := by
  rw [new_row, ensure_pos hbounds, ok_bind, hc]
  dsimp only
  rw [ensure_pos hcur, ok_bind]

/-- The pointer to a column. -/
def ptr (names : List Int) (k : Int) : Ptr := names.idxOf k + 1

def columnsOf (names : List Int) (o : Choice) : List Ptr := (namesOf o).map (ptr names)

/-- After the columns and some options. -/
structure Built (board : Board) (names : List Int) (m : Layout Choice) (s : SudokuSolver)
    (opts : List Choice) : Prop where
  root : s.root = 0
  inout : s.inout = board
  stack : s.stack = []
  cur_node : s.cur_node = names.length + 1 + 4 * opts.length
  columns : ∀ k ∈ names, s.columns k = some (ptr names k)
  layout : m.columns = columnsOf names
  rep : Rep m s.nodes 0 (List.range' 1 names.length) opts
  grown : Grown s.nodes s.cur_node (List.range' 1 names.length) (m.vert opts)
  name : ∀ k ∈ names, s.nodes.name (ptr names k) = k
  node : ∀ o ∈ opts, ∀ k ∈ namesOf o, s.nodes.name (m.node o (ptr names k)) = k

theorem Headed.built (h : Headed board s names) :
    Built board names ⟨columnsOf names, fun _ _ => 0⟩ s [] where
  root := h.root
  inout := h.inout
  stack := h.stack
  cur_node := h.cur_node
  columns k hk := by rw [h.columns, if_pos hk, ptr]
  layout := rfl
  rep :=
    { closed := h.grown.closed
      header := h.header
      self := fun c hc => h.grown.self hc
      vert := h.grown.verts.ring
      size := h.grown.verts.size
      row := fun o ho => by cases ho
      within := fun o ho => by cases ho
      few := by decide }
  grown := h.grown
  name := h.name
  node o ho := by cases ho

/-- The names of an option are different, and name columns that there are. -/
structure Fits (names : List Int) (o : Choice) : Prop where
  nodup : (namesOf o).Nodup
  mem : ∀ k ∈ namesOf o, k ∈ names
  bounds : ∀ k ∈ namesOf o, 0 ≤ k ∧ k < 400

theorem ptr_inj {j : Int} (hj : j ∈ names) (heq : ptr names j = ptr names k) : j = k :=
  (List.idxOf_inj hj).1 (Nat.succ.inj heq)

theorem ptr_mem (hk : k ∈ names) : ptr names k ∈ List.range' 1 names.length := by
  rw [List.mem_range'_1, ptr]
  have := List.idxOf_lt_length_iff.2 hk
  omega

/-- The four nodes of a row, and their links. -/
theorem appendRow_eq {o : Choice} (hcol : ∀ k ∈ namesOf o, s.columns k = some (ptr names k))
    (hname : ∀ k ∈ namesOf o, s.nodes.name (ptr names k) = k)
    (hbounds : ∀ k ∈ namesOf o, 0 ≤ k ∧ k < 400) (hroom : s.cur_node + 4 ≤ kMaxNodes) :
    s.appendRow o.1 o.2 = .ok { s with
      nodes := addRow s.nodes.name s.nodes s.cur_node (columnsOf names o)
      cur_node := s.cur_node + 4 } := by
  obtain ⟨i, v⟩ := o
  have hmem₀ : (i : Int) ∈ namesOf (i, v) := by simp [namesOf]
  have hmem₁ : get_row_col (row i) v ∈ namesOf (i, v) := by simp [namesOf]
  have hmem₂ : get_col_col (col i) v ∈ namesOf (i, v) := by simp [namesOf]
  have hmem₃ : get_box_col (box i) v ∈ namesOf (i, v) := by simp [namesOf]
  have hnext : ∀ (n : Nodes) (j : Nat) (k : Int), k ∈ namesOf (i, v) → j < 4 →
      SudokuSolver.new_row { s with nodes := n, cur_node := s.cur_node + j } k =
        .ok (s.cur_node + j, { s with
          nodes := (n.create (s.cur_node + j) (ptr names k) k).put_up (ptr names k) (s.cur_node + j)
          cur_node := s.cur_node + j + 1 }) := fun n j k hk hj =>
    new_row_eq (hbounds k hk) (hcol k hk) (by dsimp only; omega)
  have h₀ := hnext s.nodes 0 _ hmem₀ (by decide)
  have h₁ := fun n => hnext n 1 _ hmem₁ (by decide)
  have h₂ := fun n => hnext n 2 _ hmem₂ (by decide)
  have h₃ := fun n => hnext n 3 _ hmem₃ (by decide)
  have hs : { s with nodes := s.nodes, cur_node := s.cur_node + 0 } = s := rfl
  rw [hs] at h₀
  simp only [appendRow, h₀, h₁, h₂, h₃, ok_bind, Nat.add_zero]
  simp only [columnsOf, namesOf, addRow, addNodes, List.map_cons, List.map_nil, hname _ hmem₀,
    hname _ hmem₁, hname _ hmem₂, hname _ hmem₃]
  rfl

theorem Built.appendRow {m : Layout Choice} {opts : List Choice} {o : Choice}
    (h : Built board names m s opts) (ho : o ∉ opts) (hfits : Fits names o)
    (hroom : names.length + 1 + 4 * opts.length + 4 ≤ kMaxNodes) :
    ∃ s', s.appendRow o.1 o.2 = .ok s' ∧
      Built board names (m.add o s.cur_node) s' (opts ++ [o]) := by
  have hcolumns : m.columns o = columnsOf names o := congrFun h.layout o
  have hnodup : (m.columns o).Nodup := by
    rw [hcolumns]
    exact hfits.nodup.map_on fun j hj k _ heq => ptr_inj (hfits.mem j hj) heq
  have hsub : m.columns o ⊆ List.range' 1 names.length := by
    rw [hcolumns]
    intro c hc
    obtain ⟨k, hk, rfl⟩ := List.mem_map.1 hc
    exact ptr_mem (hfits.mem k hk)
  have hlen : (m.columns o).length = 4 := by
    rw [hcolumns]
    rfl
  have hcur : 0 < s.cur_node := by
    rw [h.cur_node]
    omega
  have hroom' : s.cur_node + 4 ≤ kMaxNodes := by rwa [h.cur_node]
  have hfew : opts.length + 1 < kMaxNodes := by omega
  obtain ⟨hrep, hgrown, hsame, hnames⟩ := h.rep.add (k := s.nodes.name) h.grown hcur ho
    (c := ptr names o.1) hcolumns hnodup hsub (by rw [hlen]; decide) hfew
  rw [hcolumns] at hrep hgrown hsame hnames
  rw [show (columnsOf names o).length = 4 from rfl] at hgrown
  have hname : ∀ k ∈ names,
      (addRow s.nodes.name s.nodes s.cur_node (columnsOf names o)).name (ptr names k) = k := by
    intro k hk
    rw [hsame.name _ (h.grown.lt _ (ptr_mem hk) _ List.mem_cons_self), h.name k hk]
  refine ⟨_, appendRow_eq (fun k hk => h.columns k (hfits.mem k hk))
    (fun k hk => h.name k (hfits.mem k hk)) hfits.bounds hroom', h.root, h.inout, h.stack, ?_,
    h.columns, h.layout, hrep, hgrown, hname, fun p hp k hk => ?_⟩
  · dsimp only
    rw [h.cur_node, List.length_append, List.length_singleton]
    omega
  · rcases List.mem_append.1 hp with hp | hp
    · have hpo : p ≠ o := fun heq => ho (heq ▸ hp)
      have hmem : ptr names k ∈ m.columns p := by
        rw [h.layout]
        exact List.mem_map_of_mem hk
      have hlt : m.node p (ptr names k) < s.cur_node := by
        refine h.grown.lt _ (h.rep.within p hp hmem) _ (List.mem_cons_of_mem _ ?_)
        exact List.mem_map.2 ⟨p, Layout.mem_through.2 ⟨hp, hmem⟩, rfl⟩
      rw [Layout.add_node hpo]
      exact (hsame.name _ hlt).trans (h.node p hp k hk)
    · obtain rfl := List.mem_singleton.1 hp
      exact (hnames _ (List.mem_map_of_mem hk)).trans (h.name k (hfits.mem k hk))

theorem Built.appendRows {m : Layout Choice} {opts os : List Choice}
    (h : Built board names m s opts) (hos : (opts ++ os).Nodup) (hfits : ∀ o ∈ os, Fits names o)
    (hroom : names.length + 1 + 4 * (opts ++ os).length ≤ kMaxNodes) :
    ∃ s' m', os.foldlM (fun s o => s.appendRow o.1 o.2) s = .ok s' ∧
      Built board names m' s' (opts ++ os) := by
  induction os generalizing s m opts with
  | nil =>
    refine ⟨s, m, rfl, ?_⟩
    rwa [List.append_nil]
  | cons o os ih =>
    have ho : o ∉ opts := fun hmem =>
      (List.nodup_append.1 hos).2.2 o hmem o List.mem_cons_self rfl
    have hroom' : names.length + 1 + 4 * opts.length + 4 ≤ kMaxNodes := by
      simp only [List.length_append, List.length_cons] at hroom
      omega
    obtain ⟨s₁, hs₁, h₁⟩ := h.appendRow ho (hfits o List.mem_cons_self) hroom'
    rw [List.append_cons] at hos hroom
    obtain ⟨s₂, m₂, hs₂, h₂⟩ := ih h₁ hos (fun p hp => hfits p (List.mem_cons_of_mem _ hp)) hroom
    refine ⟨s₂, m₂, ?_, ?_⟩
    · rw [List.foldlM_cons, hs₁, ok_bind, hs₂]
    · rw [List.append_cons]
      exact h₂

/-! ## The whole board -/

/-- The names of all columns, for an empty board. -/
def allNames : List Int :=
  (List.range kCells).map Nat.cast ++
    (List.range 9).flatMap fun (i : Nat) => values.flatMap fun (v : Nat) =>
      [get_row_col i v, get_col_col i v, get_box_col i v]

theorem mem_values {v : Nat} : v ∈ values ↔ 1 ≤ v ∧ v < 10 := by
  rw [values, List.mem_range'_1]

/-- The names of the columns for `i` and `v`; the digits tell them apart. -/
theorem mem_namesAt {i v : Nat} : k ∈ [get_row_col i v, get_col_col i v, get_box_col i v] ↔
    ∃ t : Nat, (t = 1 ∨ t = 2 ∨ t = 3) ∧ k = t * 100 + i * 10 + v := by
  simp [get_row_col, get_col_col, get_box_col, kRow, kCol, kBox]

theorem mem_allNames : k ∈ allNames ↔ (∃ i : Nat, i < 81 ∧ k = i) ∨
    ∃ i : Nat, i < 9 ∧ ∃ v : Nat, (1 ≤ v ∧ v < 10) ∧
      ∃ t : Nat, (t = 1 ∨ t = 2 ∨ t = 3) ∧ k = t * 100 + i * 10 + v := by
  simp only [allNames, List.mem_append, List.mem_map, List.mem_flatMap, List.mem_range, mem_namesAt,
    mem_values, kCells, eq_comm]

theorem allNames_nodup : allNames.Nodup := by
  have hvalues : values.Nodup := List.nodup_range'
  refine List.nodup_append.2 ⟨List.nodup_range.map Nat.cast_injective, ?_, ?_⟩
  · refine List.nodup_flatMap.2 ⟨fun i _ => List.nodup_flatMap.2 ⟨fun v _ => ?_, ?_⟩, ?_⟩
    · simp [get_row_col, get_col_col, get_box_col, kRow, kCol, kBox]
    · refine hvalues.imp_of_mem fun {v w} hv hw hne k hk hk' => hne ?_
      obtain ⟨t, -, rfl⟩ := mem_namesAt.1 hk
      obtain ⟨t', -, heq⟩ := mem_namesAt.1 hk'
      rw [mem_values] at hv hw
      omega
    · refine List.nodup_range.imp_of_mem fun {i j} hi hj hne k hk hk' => hne ?_
      obtain ⟨v, hv, hk⟩ := List.mem_flatMap.1 hk
      obtain ⟨w, hw, hk'⟩ := List.mem_flatMap.1 hk'
      obtain ⟨t, -, rfl⟩ := mem_namesAt.1 hk
      obtain ⟨t', -, heq⟩ := mem_namesAt.1 hk'
      rw [mem_values] at hv hw
      rw [List.mem_range] at hi hj
      omega
  · intro k hk j hj heq
    obtain ⟨i, hi, rfl⟩ := List.mem_map.1 hk
    obtain ⟨i', -, hj⟩ := List.mem_flatMap.1 hj
    obtain ⟨v, -, hj⟩ := List.mem_flatMap.1 hj
    obtain ⟨t, ht, rfl⟩ := mem_namesAt.1 hj
    rw [List.mem_range, kCells] at hi
    omega

theorem allNames_bounds (hk : k ∈ allNames) : 0 ≤ k ∧ k < 400 := by
  rcases mem_allNames.1 hk with ⟨i, hi, rfl⟩ | ⟨i, hi, v, hv, t, ht, rfl⟩
  · omega
  · omega

theorem allNames_length : allNames.length = 324 := by decide +kernel

theorem ite_sublist {α : Type} {p : Prop} [Decidable p] {l : List α} :
    (if p then l else []).Sublist l := by
  split
  · exact List.Sublist.refl _
  · exact List.nil_sublist _

theorem mem_ite_nil {α : Type} {p : Prop} [Decidable p] {a : α} {l : List α} :
    (a ∈ if p then l else []) ↔ p ∧ a ∈ l := by
  split <;> simp [*]

theorem mem_ite_singleton {α : Type} {p : Prop} [Decidable p] {a b : α} :
    (a ∈ if p then [b] else []) ↔ p ∧ a = b := by
  rw [mem_ite_nil, List.mem_singleton]

theorem columnNames_sublist (board : Board) : (columnNames board).Sublist allNames := by
  refine List.Sublist.append ?_ ?_
  · rw [List.map_eq_flatMap]
    exact List.Sublist.flatMap_right _ fun i _ => ite_sublist
  · refine List.Sublist.flatMap_right _ fun i _ => List.Sublist.flatMap_right _ fun v _ => ?_
    exact ite_sublist.append (ite_sublist.append ite_sublist)

theorem choices_sublist (board : Board) :
    (choices board).Sublist (List.range kCells ×ˢ values) := by
  show (choices board).Sublist ((List.range kCells).flatMap fun i => values.map (Prod.mk i))
  refine List.Sublist.flatMap_right _ fun i _ => ite_sublist.trans ?_
  rw [List.map_eq_flatMap]
  exact List.Sublist.flatMap_right _ fun v _ => ite_sublist

theorem choices_nodup (board : Board) : (choices board).Nodup := by
  have hvalues : values.Nodup := List.nodup_range'
  exact (List.nodup_range.product hvalues).sublist (choices_sublist board)

theorem mem_columnNames :
    k ∈ columnNames board ↔ (∃ i : Nat, i < kCells ∧ board i = 0 ∧ k = i) ∨
      ∃ i < 9, ∃ v ∈ values, (marks board).rows i v = false ∧ k = get_row_col i v ∨
        (marks board).cols i v = false ∧ k = get_col_col i v ∨
        (marks board).boxes i v = false ∧ k = get_box_col i v := by
  simp only [columnNames, List.mem_append, List.mem_flatMap, List.mem_range, mem_ite_singleton,
    Bool.not_eq_true']

theorem mem_choices {i v : Nat} :
    (i, v) ∈ choices board ↔ i < kCells ∧ board i = 0 ∧ v ∈ values ∧
      (marks board).rows (row i) v = false ∧ (marks board).cols (col i) v = false ∧
      (marks board).boxes (box i) v = false := by
  simp only [choices, List.mem_flatMap, List.mem_range, mem_ite_nil, List.mem_singleton,
    Bool.not_eq_true', Bool.or_eq_false_iff, Prod.mk.injEq]
  constructor
  · rintro ⟨j, hj, hb, w, hw, ⟨⟨hr, hc⟩, hx⟩, rfl, rfl⟩
    exact ⟨hj, hb, hw, hr, hc, hx⟩
  · rintro ⟨hj, hb, hw, hr, hc, hx⟩
    exact ⟨i, hj, hb, v, hw, ⟨⟨hr, hc⟩, hx⟩, rfl, rfl⟩

theorem row_lt {i : Nat} (hi : i < kCells) : row i < 9 := by
  rw [kCells] at hi
  rw [row]
  omega

theorem col_lt (i : Nat) : col i < 9 := Nat.mod_lt i (by decide)

theorem box_lt {i : Nat} (hi : i < kCells) : box i < 9 := by
  have := row_lt hi
  have := col_lt i
  rw [box]
  omega

theorem fits {o : Choice} (ho : o ∈ choices board) : Fits (columnNames board) o := by
  obtain ⟨i, v⟩ := o
  obtain ⟨hi, hb, hv, hr, hc, hx⟩ := mem_choices.1 ho
  have hmem : ∀ k ∈ namesOf (i, v), k ∈ columnNames board := by
    intro k hk
    simp only [namesOf, List.mem_cons, List.not_mem_nil, or_false] at hk
    rw [mem_columnNames]
    rcases hk with rfl | rfl | rfl | rfl
    · exact .inl ⟨i, hi, hb, rfl⟩
    · exact .inr ⟨row i, row_lt hi, v, hv, .inl ⟨hr, rfl⟩⟩
    · exact .inr ⟨col i, col_lt i, v, hv, .inr (.inl ⟨hc, rfl⟩)⟩
    · exact .inr ⟨box i, box_lt hi, v, hv, .inr (.inr ⟨hx, rfl⟩)⟩
  refine ⟨?_, hmem, fun k hk => allNames_bounds ((columnNames_sublist board).subset (hmem k hk))⟩
  have hrow := row_lt hi
  have hcol := col_lt i
  have hbox := box_lt hi
  rw [kCells] at hi
  rw [mem_values] at hv
  simp only [namesOf, get_row_col, get_col_col, get_box_col, kRow, kCol, kBox, List.nodup_cons,
    List.mem_cons, List.not_mem_nil, not_or, or_false, not_false_eq_true, List.nodup_nil, and_true]
  omega

theorem create_zero : ((Nodes.zero.create 0 0 0).setRight 0 0).setLeft 0 0 = .zero := by
  have hzero : update (fun _ : Ptr => (0 : Ptr)) 0 0 = fun _ => 0 :=
    update_eq_self 0 _
  have hint : update (fun _ : Ptr => (0 : Int)) 0 0 = fun _ => 0 :=
    update_eq_self 0 _
  simp only [Nodes.create, Nodes.zero, Nodes.setRight, Nodes.setLeft, hzero, hint]

/-- Nothing but the root. -/
theorem headed_nil (board : Board) :
    Headed board ⟨0, board, fun _ => none, [], .zero, 1⟩ [] where
  root := rfl
  inout := rfl
  stack := rfl
  cur_node := rfl
  self := rfl
  header := .singleton rfl rfl
  grown :=
    { closed := ⟨fun _ => rfl, fun _ => rfl, fun _ _ => rfl, fun _ _ => rfl⟩
      below := ⟨fun _ => Nat.one_pos, fun _ => Nat.one_pos, fun _ => Nat.one_pos,
        fun _ => Nat.one_pos⟩
      verts := ⟨fun c hc => (by cases hc), fun c hc => (by cases hc), fun c hc => (by cases hc)⟩
      lt := fun c hc => by cases hc }
  columns _ := rfl
  name k hk := by cases hk

/-- The constructor links up the matrix of the board. -/
theorem create_spec (board : Board) :
    ∃ s m, create board = .ok s ∧ Built board (columnNames board) m s (choices board) := by
  have hnames := (columnNames_sublist board).length_le
  have hchoices := (choices_sublist board).length_le
  have hproduct : (List.range kCells ×ˢ values).length = 729 := by
    rw [List.length_product]
    rfl
  rw [allNames_length] at hnames
  rw [hproduct] at hchoices
  have hnodup : ([] ++ columnNames board).Nodup := by
    rw [List.nil_append]
    exact allNames_nodup.sublist (columnNames_sublist board)
  have hnodup' : ([] ++ choices board).Nodup := by
    rw [List.nil_append]
    exact choices_nodup board
  have hbounds : ∀ k ∈ columnNames board, 0 ≤ k ∧ k < 400 := fun k hk =>
    allNames_bounds ((columnNames_sublist board).subset hk)
  have hroom : ([] ++ columnNames board).length < kMaxNodes := by
    rw [List.nil_append, kMaxNodes]
    omega
  have hroom' : (columnNames board).length + 1 + 4 * ([] ++ choices board).length ≤ kMaxNodes := by
    rw [List.nil_append, kMaxNodes]
    omega
  obtain ⟨s₁, hs₁, h₁⟩ := (headed_nil board).append_columns hnodup hbounds hroom
  rw [List.nil_append] at h₁
  obtain ⟨s₂, m, hs₂, h₂⟩ := h₁.built.appendRows hnodup' (fun o ho => fits ho) hroom'
  rw [List.nil_append] at h₂
  refine ⟨s₂, m, ?_, h₂⟩
  rw [create_eq, new_column, ensure_pos (show 0 < kMaxNodes by decide), ok_bind, ok_bind]
  dsimp only
  rw [create_zero]
  rw [hs₁, ok_bind, hs₂]

end SudokuSolver
end Sudoku
end TinyMuduo

import Mathlib.Logic.Function.Basic
import TinyMuduo.Base.Text
import TinyMuduo.Lib.Result

/-!
# Sudoku.Model

`SudokuSolver` and `solveSudoku` of the sudoku servers: a search for an exact cover with dancing
links.

A pointer is an index of `nodes_`, and there is one map for each field of a `Node`. The loops along
the links have no bound of their own in the source; here each is given `kMaxNodes` turns, and so is
the recursion of `solve`. Nodes that were not handed out yet are zero.
-/

namespace TinyMuduo
namespace Sudoku

open Result Function

def kCells : Nat := 81

def kMaxNodes : Nat := 1 + 81 * 4 + 9 * 9 * 9 * 4

abbrev Ptr := Nat

inductive Fault where
  | assertion
  /-- An index of an array is out of its range. -/
  | bounds
  /-- A loop did not end in the turns it was given. -/
  | endless
  deriving DecidableEq, Repr

/-! ## Nodes -/

structure Nodes where
  left : Ptr → Ptr
  right : Ptr → Ptr
  up : Ptr → Ptr
  down : Ptr → Ptr
  col : Ptr → Ptr
  name : Ptr → Int
  size : Ptr → Int

namespace Nodes

def zero : Nodes where
  left _ := 0
  right _ := 0
  up _ := 0
  down _ := 0
  col _ := 0
  name _ := 0
  size _ := 0

def setLeft (h : Nodes) (p v : Ptr) : Nodes := { h with left := update h.left p v }

def setRight (h : Nodes) (p v : Ptr) : Nodes := { h with right := update h.right p v }

def setUp (h : Nodes) (p v : Ptr) : Nodes := { h with up := update h.up p v }

def setDown (h : Nodes) (p v : Ptr) : Nodes := { h with down := update h.down p v }

def setSize (h : Nodes) (p : Ptr) (n : Int) : Nodes := { h with size := update h.size p n }

/-- A new node, before it is put anywhere. -/
def create (h : Nodes) (p col : Ptr) (name : Int) : Nodes where
  left := update h.left p p
  right := update h.right p p
  up := update h.up p p
  down := update h.down p p
  col := update h.col p col
  name := update h.name p name
  size := update h.size p 0

def put_left (h : Nodes) (old nnew : Ptr) : Nodes :=
  let h := h.setLeft nnew (h.left old)
  let h := h.setRight nnew old
  let h := h.setRight (h.left old) nnew
  h.setLeft old nnew

def put_up (h : Nodes) (old nnew : Ptr) : Nodes :=
  let h := h.setUp nnew (h.up old)
  let h := h.setDown nnew old
  let h := h.setDown (h.up old) nnew
  let h := h.setUp old nnew
  let h := h.setSize old (h.size old + 1)
  { h with col := update h.col nnew old }

/-- The first two lines of `cover`. -/
def unlinkColumn (h : Nodes) (c : Ptr) : Nodes :=
  let h := h.setLeft (h.right c) (h.left c)
  h.setRight (h.left c) (h.right c)

/-- The last two lines of `uncover`. -/
def relinkColumn (h : Nodes) (c : Ptr) : Nodes :=
  let h := h.setLeft (h.right c) c
  h.setRight (h.left c) c

/-- What `cover` does to one node. -/
def unlink (h : Nodes) (j : Ptr) : Nodes :=
  let h := h.setUp (h.down j) (h.up j)
  let h := h.setDown (h.up j) (h.down j)
  h.setSize (h.col j) (h.size (h.col j) - 1)

/-- What `uncover` does to one node. -/
def relink (h : Nodes) (j : Ptr) : Nodes :=
  let h := h.setSize (h.col j) (h.size (h.col j) + 1)
  let h := h.setUp (h.down j) j
  h.setDown (h.up j) j

/-- `for (p = first; p != stop; p = p->next) body`. -/
def each (next : Nodes → Ptr → Ptr) (stop : Ptr) (body : Nodes → Ptr → Except Fault Nodes) :
    Nat → Nodes → Ptr → Except Fault Nodes
  | 0, _, _ => .error .endless
  | turns + 1, h, p =>
    if p = stop then .ok h
    else do
      let h ← body h p
      each next stop body turns h (next h p)

def cover (h : Nodes) (c : Ptr) : Except Fault Nodes :=
  let h := h.unlinkColumn c
  each down c (fun h row => each right row (fun h j => .ok (h.unlink j)) kMaxNodes h (h.right row))
    kMaxNodes h (h.down c)

def uncover (h : Nodes) (c : Ptr) : Except Fault Nodes := do
  let h ← each up c
    (fun h row => each left row (fun h j => .ok (h.relink j)) kMaxNodes h (h.left row))
    kMaxNodes h (h.up c)
  .ok (h.relinkColumn c)

/-- The loop of `get_min_column`. -/
def scanColumns (h : Nodes) (root : Ptr) : Nat → Ptr → Int → Ptr → Except Fault Ptr
  | 0, _, _, _ => .error .endless
  | turns + 1, c, min_size, cc =>
    if cc = root then .ok c
    else if min_size > h.size cc then
      if h.size cc ≤ 1 then .ok cc
      else h.scanColumns root turns cc (h.size cc) (h.right cc)
    else h.scanColumns root turns c min_size (h.right cc)

def get_min_column (h : Nodes) (root : Ptr) : Except Fault Ptr :=
  let c := h.right root
  let min_size := h.size c
  if min_size > 1 then h.scanColumns root kMaxNodes c min_size (h.right c) else .ok c

/-- The `while` loop of `solve`: the cell and the value of the row that `n` is in. -/
def readRow (h : Nodes) : Nat → Int → Int → Ptr → Except Fault (Int × Int)
  | 0, _, _, _ => .error .endless
  | turns + 1, cell, val, n =>
    if cell = -1 ∨ val = -1 then
      if h.name n < 100 then h.readRow turns (h.name n) val (h.right n)
      else h.readRow turns cell ((h.name n).tmod 10) (h.right n)
    else .ok (cell, val)

end Nodes

/-! ## The solver -/

/-- The values in the cells, `0` where there is none. -/
abbrev Board := Nat → Int

structure SudokuSolver where
  root : Ptr
  inout : Board
  columns : Int → Option Ptr
  stack : List Ptr
  nodes : Nodes
  cur_node : Nat

namespace SudokuSolver

def kRow : Int := 100
def kCol : Int := 200
def kBox : Int := 300

def get_row_col (row val : Int) : Int := kRow + row * 10 + val
def get_col_col (col val : Int) : Int := kCol + col * 10 + val
def get_box_col (box val : Int) : Int := kBox + box * 10 + val

def new_column (s : SudokuSolver) (n : Int) : Except Fault (Ptr × SudokuSolver) := do
  ensure (s.cur_node < kMaxNodes) .assertion
  let c := s.cur_node
  .ok (c, { s with nodes := s.nodes.create c c n, cur_node := s.cur_node + 1 })

def append_column (s : SudokuSolver) (n : Int) : Except Fault SudokuSolver := do
  ensure (0 ≤ n ∧ n < 400) .bounds
  ensure (s.columns n = none) .assertion
  let (c, s) ← s.new_column n
  .ok { s with
    nodes := s.nodes.put_left s.root c
    columns := update s.columns n (some c) }

def new_row (s : SudokuSolver) (col : Int) : Except Fault (Ptr × SudokuSolver) := do
  ensure (0 ≤ col ∧ col < 400) .bounds
  match s.columns col with
  | none => .error .assertion
  | some c =>
    ensure (s.cur_node < kMaxNodes) .assertion
    let r := s.cur_node
    .ok (r, { s with nodes := (s.nodes.create r c col).put_up c r, cur_node := s.cur_node + 1 })

/-- Which values there are in the rows, the columns and the boxes. -/
structure Marks where
  rows : Nat → Int → Bool
  cols : Nat → Int → Bool
  boxes : Nat → Int → Bool

def mark (m : Nat → Int → Bool) (i : Nat) (v : Int) : Nat → Int → Bool :=
  fun j w => if j = i ∧ w = v then true else m j w

def row (i : Nat) : Nat := i / 9
def col (i : Nat) : Nat := i % 9
def box (i : Nat) : Nat := row i / 3 * 3 + col i / 3

/-- The first loop of the constructor. -/
def marks (board : Board) : Marks :=
  (List.range kCells).foldl (fun m i =>
    { rows := mark m.rows (row i) (board i)
      cols := mark m.cols (col i) (board i)
      boxes := mark m.boxes (box i) (board i) })
    ⟨fun _ _ => false, fun _ _ => false, fun _ _ => false⟩

/-- `for (int v = 1; v < 10; ++v)` -/
def values : List Nat := List.range' 1 9

def appendIf (s : SudokuSolver) (p : Bool) (n : Int) : Except Fault SudokuSolver :=
  if p then s.append_column n else .ok s

/-- The body of the last loop of the constructor. -/
def appendRow (s : SudokuSolver) (i : Nat) (v : Int) : Except Fault SudokuSolver := do
  let (n0, s) ← s.new_row i
  let (nr, s) ← s.new_row (get_row_col (row i) v)
  let (nc, s) ← s.new_row (get_col_col (col i) v)
  let (nb, s) ← s.new_row (get_box_col (box i) v)
  let h := s.nodes.put_left n0 nr
  let h := h.put_left n0 nc
  let h := h.put_left n0 nb
  .ok { s with nodes := h }

/-- The constructor. -/
def create (board : Board) : Except Fault SudokuSolver := do
  let (root, s) ← new_column ⟨0, board, fun _ => none, [], .zero, 0⟩ 0
  let h := s.nodes.setRight root root
  let s := { s with root := root, nodes := h.setLeft root root }
  let m := marks board
  let s ← (List.range kCells).foldlM (fun s i => s.appendIf (board i = 0) i) s
  let s ← (List.range 9).foldlM (fun s i =>
    values.foldlM (fun s (v : Nat) => do
      let s ← s.appendIf (!m.rows i v) (get_row_col i v)
      let s ← s.appendIf (!m.cols i v) (get_col_col i v)
      s.appendIf (!m.boxes i v) (get_box_col i v)) s) s
  (List.range kCells).foldlM (fun s i =>
    if board i = 0 then
      values.foldlM (fun s (v : Nat) =>
        if !(m.rows (row i) v || m.cols (col i) v || m.boxes (box i) v) then s.appendRow i v
        else .ok s) s
    else .ok s) s

/-- The board with the values of the rows on the stack. -/
def fill (h : Nodes) (board : Board) (stack : List Ptr) : Except Fault Board :=
  stack.foldlM (fun board n => do
    let (cell, val) ← h.readRow kMaxNodes (-1) (-1) n
    ensure (0 ≤ cell ∧ cell < kCells) .bounds
    .ok (update board cell.toNat val)) board

/-- The loop of `solve` over the rows of `col`, with the lines behind it. -/
def tryRows (solve : SudokuSolver → Except Fault (Bool × SudokuSolver)) (col : Ptr) :
    Nat → SudokuSolver → Ptr → Except Fault (Bool × SudokuSolver)
  | 0, _, _ => .error .endless
  | turns + 1, s, row =>
    if row = col then do
      let h ← s.nodes.uncover col
      .ok (false, { s with nodes := h })
    else do
      let h ← Nodes.each Nodes.right row (fun h j => h.cover (h.col j)) kMaxNodes s.nodes
        (s.nodes.right row)
      let (found, s) ← solve { s with stack := s.stack ++ [row], nodes := h }
      if found then .ok (true, s)
      else
        let h ← Nodes.each Nodes.left row (fun h j => h.uncover (h.col j)) kMaxNodes s.nodes
          (s.nodes.left row)
        tryRows solve col turns { s with stack := s.stack.dropLast, nodes := h } (h.down row)

def solve : Nat → SudokuSolver → Except Fault (Bool × SudokuSolver)
  | 0, _ => .error .endless
  | turns + 1, s =>
    if s.nodes.left s.root = s.root then do
      let board ← fill s.nodes s.inout s.stack
      .ok (true, { s with inout := board })
    else do
      let col ← s.nodes.get_min_column s.root
      let h ← s.nodes.cover col
      tryRows (solve turns) col kMaxNodes { s with nodes := h } (h.down col)

end SudokuSolver

def kNoSolution : List Byte := ascii ['N', 'o', 'S', 'o', 'l', 'u', 't', 'i', 'o', 'n']

/-- `puzzle[i] - '0'` -/
def cellOf (puzzle : List Byte) (i : Nat) : Int := (puzzle.getD i 0).toInt - 48

def solveSudoku (puzzle : List Byte) : Except Fault (List Byte) := do
  ensure (puzzle.length = kCells) .assertion
  if ∀ i < kCells, 0 ≤ cellOf puzzle i ∧ cellOf puzzle i ≤ 9 then do
    let s ← SudokuSolver.create (cellOf puzzle)
    let (found, s) ← s.solve kMaxNodes
    if found then .ok ((List.range kCells).map fun i => BitVec.ofInt 8 (s.inout i + 48))
    else .ok kNoSolution
  else .ok kNoSolution

end Sudoku
end TinyMuduo

import TinyMuduo.Sudoku.Links

/-!
# Sudoku.Matrix

The matrix of an exact cover problem in the links.

* `Layout` — for each option its columns, in the order of its row, and its node in each of them.
* `Rep` — the links hold the columns `cols` and the options `opts`. The rings of the columns are in
  the order of `opts`, whatever was taken out.
* `Rep.cover` — `cover` takes out a column and all options for it, and `uncover` gives back the very
  same links; `Rep.covers` is this for many columns.
-/

namespace TinyMuduo
namespace Sudoku

open ExactCover Result Nodes

structure Layout (ι : Type) where
  columns : ι → List Ptr
  node : ι → Ptr → Ptr

/-- The columns of a row behind `c`, going round. -/
def others (c : Ptr) (l : List Ptr) : List Ptr :=
  (l.dropWhile (· ≠ c)).tail ++ l.takeWhile (· ≠ c)

theorem others_append {c : Ptr} {l₁ l₂ : List Ptr} (hc : c ∉ l₁) :
    others c (l₁ ++ c :: l₂) = l₂ ++ l₁ := by
  have hall : ∀ a ∈ l₁, decide (a ≠ c) = true := by
    intro a ha
    exact decide_eq_true fun heq => hc (heq ▸ ha)
  rw [others, List.dropWhile_append_of_pos hall, List.takeWhile_append_of_pos hall]
  simp

theorem mem_others {c d : Ptr} {l : List Ptr} (hl : l.Nodup) (hc : c ∈ l) :
    d ∈ others c l ↔ d ∈ l ∧ d ≠ c := by
  obtain ⟨l₁, l₂, rfl⟩ := List.append_of_mem hc
  obtain ⟨-, hl₂, hdisj⟩ := List.nodup_append.1 hl
  have hc₁ : c ∉ l₁ := fun hmem => hdisj c hmem c List.mem_cons_self rfl
  have hc₂ := (List.nodup_cons.1 hl₂).1
  rw [others_append hc₁]
  by_cases hdc : d = c
  · subst hdc
    simp [hc₁, hc₂]
  · simp [hdc, or_comm]

theorem length_others {c : Ptr} {l : List Ptr} (hl : l.Nodup) (hc : c ∈ l) :
    (others c l).length < l.length := by
  obtain ⟨l₁, l₂, rfl⟩ := List.append_of_mem hc
  have hc₁ : c ∉ l₁ := fun hmem => (List.nodup_append.1 hl).2.2 c hmem c List.mem_cons_self rfl
  rw [others_append hc₁]
  simp
  omega

variable {ι : Type}

namespace Layout

variable (m : Layout ι)

/-- The options for a column. -/
def through (opts : List ι) (c : Ptr) : List ι := opts.filter (c ∈ m.columns ·)

/-- The nodes of a column. -/
def vert (opts : List ι) (c : Ptr) : List Ptr := (m.through opts c).map (m.node · c)

def rest (o : ι) (c : Ptr) : List Ptr := (others c (m.columns o)).map (m.node o)

/-- The nodes that `cover` bypasses, in order. -/
def bypassed (opts : List ι) (c : Ptr) : List Ptr := (m.through opts c).flatMap (m.rest · c)

theorem mem_through {m : Layout ι} {opts : List ι} {c : Ptr} {o : ι} :
    o ∈ m.through opts c ↔ o ∈ opts ∧ c ∈ m.columns o := by
  simp [through]

end Layout

/-- The row of an option. -/
structure Row (m : Layout ι) (n : Nodes) (o : ι) : Prop where
  nodup : (m.columns o).Nodup
  short : (m.columns o).length ≤ kMaxNodes
  head : ∀ c ∈ m.columns o, n.col c = c
  node : ∀ c ∈ m.columns o, m.node o c ≠ c
  col : ∀ c ∈ m.columns o, n.col (m.node o c) = c
  ring : ∀ c ∈ m.columns o, Ring n.right n.left (m.node o c) (m.rest o c)

structure Rep (m : Layout ι) (n : Nodes) (root : Ptr) (cols : List Ptr) (opts : List ι) : Prop where
  closed : n.Closed
  header : Ring n.right n.left root cols
  self : ∀ c ∈ cols, n.col c = c
  vert : ∀ c ∈ cols, Ring n.down n.up c (m.vert opts c)
  size : ∀ c ∈ cols, n.size c = (m.vert opts c).length
  row : ∀ o ∈ opts, Row m n o
  within : ∀ o ∈ opts, m.columns o ⊆ cols
  few : opts.length < kMaxNodes

variable {m : Layout ι} {n n' : Nodes} {root c d : Ptr} {cols ds : List Ptr} {opts : List ι} {o : ι}

namespace Row

theorem not_head (hr : Row m n o) (hc : c ∈ m.columns o) : n.col (m.node o c) ≠ m.node o c := by
  rw [hr.col c hc]
  exact (hr.node c hc).symm

theorem mem_rest (hr : Row m n o) (hc : c ∈ m.columns o) {j : Ptr} :
    j ∈ m.rest o c ↔ ∃ d ∈ m.columns o, d ≠ c ∧ m.node o d = j := by
  simp only [Layout.rest, List.mem_map, mem_others hr.nodup hc, and_assoc]

theorem static (hr : Row m n o) (hs : Static n n') : Row m n' o where
  nodup := hr.nodup
  short := hr.short
  head := by
    rw [hs.col]
    exact hr.head
  node := hr.node
  col := by
    rw [hs.col]
    exact hr.col
  ring c hc := by
    have hnode : ∀ j ∈ m.node o c :: m.rest o c, n.col j ≠ j := by
      intro j hj
      rcases List.mem_cons.1 hj with rfl | hj
      · exact hr.not_head hc
      · obtain ⟨d, hd, -, rfl⟩ := (hr.mem_rest hc).1 hj
        exact hr.not_head hd
    exact (hr.ring c hc).congr (fun j hj => hs.right j (hnode j hj))
      (fun j hj => hs.left j (hnode j hj))

end Row

namespace Rep

theorem verts (h : Rep m n root cols opts) : Verts n cols (m.vert opts) where
  ring := h.vert
  col c hc p hp := by
    rcases List.mem_cons.1 hp with rfl | hp
    · exact h.self p hc
    · obtain ⟨o, ho, rfl⟩ := List.mem_map.1 hp
      obtain ⟨ho, hco⟩ := Layout.mem_through.1 ho
      exact (h.row o ho).col c hco
  size := h.size

/-- A node is in one option and one column. -/
theorem node_inj (h : Rep m n root cols opts) {o' : ι} (ho : o ∈ opts) (ho' : o' ∈ opts)
    (hc : c ∈ m.columns o) (hd : d ∈ m.columns o') (heq : m.node o c = m.node o' d) :
    o = o' ∧ c = d := by
  have hcd : c = d := by rw [← (h.row o ho).col c hc, heq, (h.row o' ho').col d hd]
  subst hcd
  have hnodup := (List.nodup_cons.1 (h.vert c (h.within o ho hc)).nodup).2
  exact ⟨List.inj_on_of_nodup_map hnodup (Layout.mem_through.2 ⟨ho, hc⟩)
    (Layout.mem_through.2 ⟨ho', hd⟩) heq, rfl⟩

theorem mem_bypassed (h : Rep m n root cols opts) {j : Ptr} :
    j ∈ m.bypassed opts c ↔
      ∃ o ∈ opts, c ∈ m.columns o ∧ ∃ d ∈ m.columns o, d ≠ c ∧ m.node o d = j := by
  simp only [Layout.bypassed, List.mem_flatMap, Layout.mem_through, and_assoc]
  constructor
  · rintro ⟨o, ho, hco, hj⟩
    exact ⟨o, ho, hco, ((h.row o ho).mem_rest hco).1 hj⟩
  · rintro ⟨o, ho, hco, hj⟩
    exact ⟨o, ho, hco, ((h.row o ho).mem_rest hco).2 hj⟩

theorem bypassed_nodup (h : Rep m n root cols opts) (hc : c ∈ cols) :
    (m.bypassed opts c).Nodup := by
  have hvert := (List.nodup_cons.1 (h.vert c hc).nodup).2
  refine List.nodup_flatMap.2 ⟨fun o ho => ?_, ?_⟩
  · obtain ⟨ho, hco⟩ := Layout.mem_through.1 ho
    exact (List.nodup_cons.1 ((h.row o ho).ring c hco).nodup).2
  · have hpair : (m.through opts c).Pairwise fun o o' => m.node o c ≠ m.node o' c :=
      List.pairwise_map.1 hvert
    refine hpair.imp_of_mem fun {o o'} ho ho' hne j hj hj' => ?_
    obtain ⟨ho, hco⟩ := Layout.mem_through.1 ho
    obtain ⟨ho', hco'⟩ := Layout.mem_through.1 ho'
    obtain ⟨d, hd, -, rfl⟩ := ((h.row o ho).mem_rest hco).1 hj
    obtain ⟨d', hd', -, heq⟩ := ((h.row o' ho').mem_rest hco').1 hj'
    obtain ⟨rfl, -⟩ := h.node_inj ho' ho hd' hd heq
    exact hne rfl

theorem column (h : Rep m n root cols opts) (hc : c ∈ cols) :
    Column n c ((m.through opts c).map fun o => (m.node o c, m.rest o c)) where
  self := h.self c hc
  ring := by
    rw [List.map_map]
    exact h.vert c hc
  col r hr := by
    obtain ⟨o, ho, rfl⟩ := List.mem_map.1 hr
    obtain ⟨ho, hco⟩ := Layout.mem_through.1 ho
    exact (h.row o ho).col c hco
  row r hr := by
    obtain ⟨o, ho, rfl⟩ := List.mem_map.1 hr
    obtain ⟨ho, hco⟩ := Layout.mem_through.1 ho
    exact (h.row o ho).ring c hco
  other r hr j hj := by
    obtain ⟨o, ho, rfl⟩ := List.mem_map.1 hr
    obtain ⟨ho, hco⟩ := Layout.mem_through.1 ho
    obtain ⟨d, hd, hdc, rfl⟩ := ((h.row o ho).mem_rest hco).1 hj
    rw [(h.row o ho).col d hd]
    exact hdc
  node r hr j hj := by
    obtain ⟨o, ho, rfl⟩ := List.mem_map.1 hr
    obtain ⟨ho, hco⟩ := Layout.mem_through.1 ho
    rcases List.mem_cons.1 hj with rfl | hj
    · exact (h.row o ho).not_head hco
    · obtain ⟨d, hd, -, rfl⟩ := ((h.row o ho).mem_rest hco).1 hj
      exact (h.row o ho).not_head hd
  few := by
    rw [List.length_map]
    exact Nat.lt_of_le_of_lt (List.length_filter_le _ _) h.few
  short r hr := by
    obtain ⟨o, ho, rfl⟩ := List.mem_map.1 hr
    obtain ⟨ho, hco⟩ := Layout.mem_through.1 ho
    rw [Layout.rest, List.length_map]
    exact Nat.lt_of_lt_of_le (length_others (h.row o ho).nodup hco) (h.row o ho).short

/-- What is left of another column. -/
theorem vert_clear (h : Rep m n root cols opts) (hdc : d ≠ c) :
    (m.vert opts d).filter (· ∉ m.bypassed opts c) = m.vert (clear m.columns opts [c]) d := by
  have hiff : ∀ o ∈ m.through opts d, m.node o d ∈ m.bypassed opts c ↔ c ∈ m.columns o := by
    intro o ho
    obtain ⟨ho, hdo⟩ := Layout.mem_through.1 ho
    rw [h.mem_bypassed]
    constructor
    · rintro ⟨o', ho', hco', d', hd', -, heq⟩
      obtain ⟨rfl, -⟩ := h.node_inj ho' ho hd' hdo heq
      exact hco'
    · intro hco
      exact ⟨o, ho, hco, d, hdo, hdc, rfl⟩
  rw [Layout.vert, Layout.vert, List.filter_map]
  congr 1
  rw [Layout.through, Layout.through, clear, List.filter_filter, List.filter_filter]
  refine List.filter_congr fun o ho => ?_
  by_cases hdo : d ∈ m.columns o
  · have := hiff o (Layout.mem_through.2 ⟨ho, hdo⟩)
    simp [hdo, this]
  · simp [hdo]

/-- `cover` takes a column and the options for it out of the matrix, and `uncover` brings the links
back as they were. The column itself keeps its rows. -/
theorem cover (h : Rep m n root cols opts) (hc : c ∈ cols) :
    ∃ n', n.cover c = .ok n' ∧ n'.uncover c = .ok n ∧
      Rep m n' root (uncovered cols [c]) (clear m.columns opts [c]) ∧ Static n n' ∧
      ∀ p, n.col p = c → n'.down p = n.down p := by
  have hcol := h.column hc
  have hself := h.self c hc
  have hflat : ((m.through opts c).map fun o => (m.node o c, m.rest o c)).flatMap Prod.snd =
      m.bypassed opts c := List.flatMap_map ..
  obtain ⟨hclosed, hstatic⟩ := h.closed.unlinkColumn hself
  have hunlink := unlinkColumn_eq n c
  have hverts : Verts (n.unlinkColumn c) (uncovered cols [c]) (m.vert opts) := by
    rw [hunlink]
    exact ⟨fun d hd => h.vert d (mem_uncovered.1 hd).1,
      fun d hd => h.verts.col d (mem_uncovered.1 hd).1, fun d hd => h.size d (mem_uncovered.1 hd).1⟩
  have hmem : ∀ j ∈ m.bypassed opts c,
      (n.unlinkColumn c).col j ∈ uncovered cols [c] ∧
        j ∈ m.vert opts ((n.unlinkColumn c).col j) := by
    intro j hj
    obtain ⟨o, ho, -, d, hd, hdc, rfl⟩ := h.mem_bypassed.1 hj
    rw [hstatic.col, (h.row o ho).col d hd]
    exact ⟨mem_uncovered.2 ⟨h.within o ho hd, by simpa using hdc⟩,
      List.mem_map.2 ⟨o, Layout.mem_through.2 ⟨ho, hd⟩, rfl⟩⟩
  obtain ⟨hverts', hback⟩ := relinks_unlinks hverts (h.bypassed_nodup hc) hmem
  have haside : Aside c (n.unlinkColumn c) ((n.unlinkColumn c).unlinks (m.bypassed opts c)) := by
    refine hclosed.unlinks fun j hj heq => ?_
    have := (mem_uncovered.1 (hmem j hj).1).2
    rw [heq] at this
    exact this (List.mem_singleton_self c)
  have hs := hstatic.trans haside.static
  have hup : ∀ p, n.col p = c →
      ((n.unlinkColumn c).unlinks (m.bypassed opts c)).up p = n.up p ∧
      ((n.unlinkColumn c).unlinks (m.bypassed opts c)).down p = n.down p := by
    intro p hp
    have hp' : (n.unlinkColumn c).col p = c := by rwa [hstatic.col]
    rw [haside.up p hp', haside.down p hp', hunlink]
    exact ⟨rfl, rfl⟩
  refine ⟨(n.unlinkColumn c).unlinks (m.bypassed opts c), ?_, ?_, ?_, hs, fun p hp => (hup p hp).2⟩
  · rw [hcol.cover_eq h.closed, hflat]
  · have hmemc : c ∈ root :: cols := List.mem_cons_of_mem _ hc
    rw [(hcol.congr hs hup).uncover_eq haside.closed, hflat, hback,
      relinkColumn_unlinkColumn (h.header.prev_next hmemc) (h.header.next_prev hmemc)]
  · refine ⟨haside.closed, ?_, fun d hd => ?_, fun d hd => ?_, fun d hd => ?_, fun o ho => ?_,
      fun o ho d hd => ?_, ?_⟩
    · rw [haside.right, haside.left, hunlink]
      have hfilter : uncovered cols [c] = cols.filter (· ≠ c) := by simp [uncovered]
      rw [hfilter]
      exact h.header.unlink hc
    · rw [hs.col]
      exact h.self d (mem_uncovered.1 hd).1
    · have hdc : d ≠ c := by simpa using (mem_uncovered.1 hd).2
      rw [← h.vert_clear hdc]
      exact hverts'.ring d hd
    · have hdc : d ≠ c := by simpa using (mem_uncovered.1 hd).2
      rw [← h.vert_clear hdc]
      exact hverts'.size d hd
    · exact (h.row o (mem_clear.1 ho).1).static hs
    · obtain ⟨ho, hclear⟩ := mem_clear.1 ho
      refine mem_uncovered.2 ⟨h.within o ho hd, fun hmemd => ?_⟩
      exact hclear d hmemd hd
    · exact Nat.lt_of_le_of_lt (List.length_filter_le _ _) h.few

theorem uncovered_uncovered (cols ds : List Ptr) (d : Ptr) :
    uncovered (uncovered cols [d]) ds = uncovered cols (d :: ds) := by
  rw [uncovered, uncovered, uncovered, List.filter_filter]
  refine List.filter_congr fun e _ => ?_
  simp [Bool.and_comm]

theorem clear_clear (opts : List ι) (ds : List Ptr) (d : Ptr) :
    clear m.columns (clear m.columns opts [d]) ds = clear m.columns opts (d :: ds) := by
  rw [clear, clear, clear, List.filter_filter]
  refine List.filter_congr fun o _ => ?_
  simp [Bool.and_comm]

theorem uncovered_congr {es : List Ptr} (h : ∀ d, d ∈ ds ↔ d ∈ es) :
    uncovered cols ds = uncovered cols es := by
  refine List.filter_congr fun d _ => ?_
  simp [h]

theorem clear_congr {es : List Ptr} (h : ∀ d, d ∈ ds ↔ d ∈ es) :
    clear m.columns opts ds = clear m.columns opts es := by
  refine List.filter_congr fun o _ => ?_
  simp [h]

/-- Many columns, and back in the opposite order. -/
theorem covers (h : Rep m n root cols opts) (hds : ds.Nodup) (hsub : ds ⊆ cols) :
    ∃ n', ds.foldlM Nodes.cover n = .ok n' ∧ ds.reverse.foldlM Nodes.uncover n' = .ok n ∧
      Rep m n' root (uncovered cols ds) (clear m.columns opts ds) ∧ Static n n' := by
  induction ds generalizing n cols opts with
  | nil =>
    refine ⟨n, rfl, rfl, ?_, .refl n⟩
    simpa [uncovered, clear] using h
  | cons d ds ih =>
    obtain ⟨hd, hds⟩ := List.nodup_cons.1 hds
    obtain ⟨n₁, hcover, huncover, hrep, hs, -⟩ := h.cover (hsub List.mem_cons_self)
    have hsub' : ds ⊆ uncovered cols [d] := by
      intro e he
      refine mem_uncovered.2 ⟨hsub (List.mem_cons_of_mem _ he), ?_⟩
      rintro hed
      exact hd (List.mem_singleton.1 hed ▸ he)
    obtain ⟨n₂, hcovers, huncovers, hrep', hs'⟩ := ih hrep hds hsub'
    rw [uncovered_uncovered, clear_clear] at hrep'
    refine ⟨n₂, ?_, ?_, hrep', hs.trans hs'⟩
    · rw [List.foldlM_cons, hcover, ok_bind, hcovers]
    · rw [List.reverse_cons, List.foldlM_append, huncovers, ok_bind, List.foldlM_cons, huncover,
        ok_bind]
      rfl

end Rep
end Sudoku
end TinyMuduo

import TinyMuduo.Lib.ExactCover
import TinyMuduo.Lib.Ring
import TinyMuduo.Sudoku.Model

/-!
# Sudoku.Links

What the links of the solver stand for, and that `uncover` undoes `cover`.

The nodes are those of a matrix of columns and options. `Rep` says how the links hold the columns
that are not covered, and the options that cover none of the others: one ring of columns, a ring of
nodes for each column, and a ring of nodes for each option. `cover` takes a column away together
with the options for it. It does so by bypassing nodes, one after the other, and each of them
remembers where it was (`relinks_unlinks`).
-/

namespace TinyMuduo
namespace Sudoku
namespace Nodes

open ExactCover Result Function

variable {h h' h₁ : Nodes} {c d j p root : Ptr}

/-! ## Loops -/

section Each

variable {next : Nodes → Ptr → Ptr} {stop : Ptr} {body : Nodes → Ptr → Except Fault Nodes}
  {P : Nodes → Prop} {turns : Nat}

theorem each_keeps (hbody : ∀ h p h', P h → body h p = .ok h' → P h') (hP : P h)
    (hx : each next stop body turns h p = .ok h') : P h' := by
  induction turns generalizing h p with
  | zero => cases hx
  | succ turns ih =>
    rw [each] at hx
    split at hx
    · cases hx
      exact hP
    · obtain ⟨h₁, hb, hx⟩ := bind_eq_ok hx
      exact ih (hbody h p h₁ hP hb) hx

/-- A loop along links that its body leaves alone is a loop over a list. -/
theorem each_eq {nx : Ptr → Ptr} {l : List Ptr}
    (hbody : ∀ h p h', P h → p ∈ l → body h p = .ok h' → P h')
    (hnext : ∀ h p, P h → p ∈ l → next h p = nx p) (hpath : Path nx p l stop) (hstop : stop ∉ l)
    (hturns : l.length < turns) (hP : P h) (hx : l.foldlM body h = .ok h') :
    each next stop body turns h p = .ok h' := by
  induction l generalizing h p turns with
  | nil =>
    obtain ⟨turns, rfl⟩ := Nat.exists_eq_succ_of_ne_zero (Nat.ne_of_gt hturns)
    cases hx
    have hend : p = stop := hpath
    rw [each, if_pos hend]
  | cons a l ih =>
    obtain ⟨turns, rfl⟩ := Nat.exists_eq_succ_of_ne_zero (Nat.ne_of_gt (Nat.zero_lt_of_lt hturns))
    obtain ⟨rfl, hpath⟩ := hpath
    rw [List.foldlM_cons] at hx
    obtain ⟨h₁, hb, hx⟩ := bind_eq_ok hx
    have hP₁ := hbody h p h₁ hP List.mem_cons_self hb
    have hne : p ≠ stop := fun heq => hstop (heq ▸ List.mem_cons_self)
    rw [each, if_neg hne, hb, ok_bind, hnext h₁ p hP₁ List.mem_cons_self]
    exact ih (fun h q h' hh hq => hbody h q h' hh (List.mem_cons_of_mem _ hq))
      (fun h q hh hq => hnext h q hh (List.mem_cons_of_mem _ hq)) hpath
      (fun hmem => hstop (List.mem_cons_of_mem _ hmem)) (Nat.lt_of_succ_lt_succ hturns) hP₁ hx

end Each

/-! ## What stays where -/

/-- The neighbours of a node are in its column, and those of a column are columns. -/
structure Closed (h : Nodes) : Prop where
  up : ∀ p, h.col (h.up p) = h.col p
  down : ∀ p, h.col (h.down p) = h.col p
  left : ∀ p, h.col p = p → h.col (h.left p) = h.left p
  right : ∀ p, h.col p = p → h.col (h.right p) = h.right p

/-- Covering and uncovering change the rows of nothing but the header. -/
structure Static (h h' : Nodes) : Prop where
  col : h'.col = h.col
  name : h'.name = h.name
  left : ∀ p, h.col p ≠ p → h'.left p = h.left p
  right : ∀ p, h.col p ≠ p → h'.right p = h.right p

theorem Static.refl (h : Nodes) : Static h h := ⟨rfl, rfl, fun _ _ => rfl, fun _ _ => rfl⟩

theorem Static.trans {h'' : Nodes} (h₁ : Static h h') (h₂ : Static h' h'') : Static h h'' where
  col := h₂.col.trans h₁.col
  name := h₂.name.trans h₁.name
  left p hp := by rw [h₂.left p (by rwa [h₁.col]), h₁.left p hp]
  right p hp := by rw [h₂.right p (by rwa [h₁.col]), h₁.right p hp]

/-- Only other columns than `c` have changed. -/
structure Aside (c : Ptr) (h h' : Nodes) : Prop where
  closed : h'.Closed
  left : h'.left = h.left
  right : h'.right = h.right
  col : h'.col = h.col
  name : h'.name = h.name
  up : ∀ p, h.col p = c → h'.up p = h.up p
  down : ∀ p, h.col p = c → h'.down p = h.down p

theorem Aside.refl (hc : h.Closed) (c : Ptr) : Aside c h h :=
  ⟨hc, rfl, rfl, rfl, rfl, fun _ _ => rfl, fun _ _ => rfl⟩

theorem Aside.trans {h'' : Nodes} (h₁ : Aside c h h') (h₂ : Aside c h' h'') : Aside c h h'' where
  closed := h₂.closed
  left := h₂.left.trans h₁.left
  right := h₂.right.trans h₁.right
  col := h₂.col.trans h₁.col
  name := h₂.name.trans h₁.name
  up p hp := by rw [h₂.up p (by rwa [h₁.col]), h₁.up p hp]
  down p hp := by rw [h₂.down p (by rwa [h₁.col]), h₁.down p hp]

theorem Aside.static (ha : Aside c h h') : Static h h' where
  col := ha.col
  name := ha.name
  left p _ := by rw [ha.left]
  right p _ := by rw [ha.right]

/-- The assignments to `up` and `down` of one node's neighbours. -/
theorem Closed.aside (hc : h.Closed) {a b u v : Ptr} {size : Ptr → Int} (ha : h.col a = h.col u)
    (hb : h.col b = h.col v) (hca : h.col a ≠ c) (hcb : h.col b ≠ c) :
    Aside c h { h with
      up := update h.up a u, down := update h.down b v, size := size } where
  closed :=
    { up := fun p => by
        by_cases hp : p = a
        · subst hp
          simp [ha]
        · simp [hp, hc.up]
      down := fun p => by
        by_cases hp : p = b
        · subst hp
          simp [hb]
        · simp [hp, hc.down]
      left := hc.left
      right := hc.right }
  left := rfl
  right := rfl
  col := rfl
  name := rfl
  up p hp := update_of_ne (fun heq : p = a => hca (heq ▸ hp)) _ _
  down p hp := update_of_ne (fun heq : p = b => hcb (heq ▸ hp)) _ _

theorem unlink_eq (h : Nodes) (j : Ptr) : h.unlink j = { h with
    up := update h.up (h.down j) (h.up j)
    down := update h.down (h.up j) (h.down j)
    size := update h.size (h.col j) (h.size (h.col j) - 1) } := by
  have hup : update h.up (h.down j) (h.up j) j = h.up j := by
    by_cases hj : j = h.down j
    · rw [← hj, update_self]
    · rw [update_of_ne hj]
  simp only [unlink, setUp, setDown, setSize, hup]

theorem relink_eq (h : Nodes) (j : Ptr) : h.relink j = { h with
    up := update h.up (h.down j) j
    down := update h.down (update h.up (h.down j) j j) j
    size := update h.size (h.col j) (h.size (h.col j) + 1) } := rfl

theorem Closed.unlink (hc : h.Closed) (hj : h.col j ≠ c) : Aside c h (h.unlink j) := by
  rw [unlink_eq]
  refine hc.aside ?_ ?_ ?_ ?_
  · rw [hc.up, hc.down]
  · rw [hc.up, hc.down]
  · rwa [hc.down]
  · rwa [hc.up]

theorem Closed.relink (hc : h.Closed) (hj : h.col j ≠ c) : Aside c h (h.relink j) := by
  have hup : h.col (update h.up (h.down j) j j) = h.col j := by
    by_cases hj : j = h.down j
    · rw [← hj, update_self]
    · rw [update_of_ne hj, hc.up]
  rw [relink_eq]
  refine hc.aside (hc.down j) hup ?_ ?_
  · rwa [hc.down]
  · rwa [hup]

/-- A dance step: `j` knows its neighbours, and comes back between them. -/
theorem relink_unlink (hup : h.up (h.down j) = j) (hdown : h.down (h.up j) = j) :
    (h.unlink j).relink j = h := by
  have hd : update h.down (h.up j) (h.down j) j = h.down j := by
    by_cases hj : j = h.up j
    · rw [← hj, update_self]
    · rw [update_of_ne hj]
  have hups : update h.up (h.down j) j = h.up := by
    nth_rewrite 2 [← hup]
    exact update_eq_self _ _
  have hdowns : update h.down (h.up j) j = h.down := by
    nth_rewrite 2 [← hdown]
    exact update_eq_self _ _
  rw [unlink_eq, relink_eq]
  simp only [hd, update_idem, hups, hdowns, update_self, Int.sub_add_cancel,
    update_eq_self]

/-! ## Many nodes -/

def unlinks (h : Nodes) (q : List Ptr) : Nodes := q.foldl unlink h

def relinks (h : Nodes) (q : List Ptr) : Nodes := q.foldl relink h

/-- The rings of the columns in `cols`. -/
structure Verts (h : Nodes) (cols : List Ptr) (vert : Ptr → List Ptr) : Prop where
  ring : ∀ c ∈ cols, Ring h.down h.up c (vert c)
  col : ∀ c ∈ cols, ∀ p ∈ c :: vert c, h.col p = c
  size : ∀ c ∈ cols, h.size c = (vert c).length

theorem length_filter_ne {l : List Ptr} (hl : l.Nodup) (hj : j ∈ l) :
    ((l.filter (· ≠ j)).length : Int) = l.length - 1 := by
  have herase : l.filter (· ≠ j) = l.erase j := by
    rw [hl.erase_eq_filter]
    exact List.filter_congr fun x _ => by simp [bne, BEq.beq]
  rw [herase, List.length_erase_of_mem hj]
  have := List.length_pos_of_mem hj
  omega

theorem Verts.unlink {cols : List Ptr} {vert : Ptr → List Ptr} (hv : Verts h cols vert)
    (hc : h.col j ∈ cols) (hj : j ∈ vert (h.col j)) :
    Verts (h.unlink j) cols fun c => (vert c).filter (· ≠ j) := by
  have hring := hv.ring _ hc
  have hcol := hv.col _ hc
  have hmem : j ∈ h.col j :: vert (h.col j) := List.mem_cons_of_mem _ hj
  have hups := hcol _ (hring.prev_mem hmem)
  have hdowns := hcol _ (hring.next_mem hmem)
  -- a column that `j` is not in
  have hother : ∀ c ∈ cols, c ≠ h.col j → (vert c).filter (· ≠ j) = vert c := by
    intro c hc' hne
    refine List.filter_eq_self.2 fun p hp => decide_eq_true ?_
    rintro rfl
    exact hne (hv.col c hc' p (List.mem_cons_of_mem _ hp)).symm
  rw [unlink_eq]
  refine ⟨fun c hc' => ?_, fun c hc' p hp => ?_, fun c hc' => ?_⟩
  · by_cases hcj : c = h.col j
    · subst hcj
      exact hring.unlink hj
    · rw [hother c hc' hcj]
      refine (hv.ring c hc').congr (fun p hp => ?_) (fun p hp => ?_)
      · refine update_of_ne (fun heq : p = h.up j => hcj ?_) _ _
        rw [← hv.col c hc' p hp, heq, hups]
      · refine update_of_ne (fun heq : p = h.down j => hcj ?_) _ _
        rw [← hv.col c hc' p hp, heq, hdowns]
  · refine hv.col c hc' p ?_
    rcases List.mem_cons.1 hp with rfl | hp
    · exact List.mem_cons_self
    · exact List.mem_cons_of_mem _ (List.mem_of_mem_filter hp)
  · by_cases hcj : c = h.col j
    · subst hcj
      dsimp only
      rw [update_self, length_filter_ne (List.nodup_cons.1 hring.nodup).2 hj,
        hv.size _ hc]
    · dsimp only
      rw [update_of_ne hcj, hother c hc' hcj, hv.size c hc']

/-- What is bypassed comes back, in the opposite order. -/
theorem relinks_unlinks {cols q : List Ptr} {vert : Ptr → List Ptr} (hv : Verts h cols vert)
    (hq : q.Nodup) (hmem : ∀ j ∈ q, h.col j ∈ cols ∧ j ∈ vert (h.col j)) :
    Verts (h.unlinks q) cols (fun c => (vert c).filter (· ∉ q)) ∧
      (h.unlinks q).relinks q.reverse = h := by
  induction q generalizing h vert with
  | nil =>
    refine ⟨?_, rfl⟩
    simpa [unlinks] using hv
  | cons j q ih =>
    obtain ⟨hjq, hq⟩ := List.nodup_cons.1 hq
    obtain ⟨hcj, hj⟩ := hmem j List.mem_cons_self
    have hcol : (h.unlink j).col = h.col := by rw [unlink_eq]
    have hmem' : ∀ i ∈ q, (h.unlink j).col i ∈ cols ∧
        i ∈ (vert ((h.unlink j).col i)).filter (· ≠ j) := by
      intro i hi
      obtain ⟨hci, hi'⟩ := hmem i (List.mem_cons_of_mem _ hi)
      rw [hcol]
      refine ⟨hci, List.mem_filter.2 ⟨hi', decide_eq_true ?_⟩⟩
      rintro rfl
      exact hjq hi
    obtain ⟨hverts, hback⟩ := ih (hv.unlink hcj hj) hq hmem'
    refine ⟨?_, ?_⟩
    · have hfilter : (fun c => ((vert c).filter (· ≠ j)).filter (· ∉ q)) =
          fun c => (vert c).filter (· ∉ j :: q) := by
        funext c
        rw [List.filter_filter]
        refine List.filter_congr fun p _ => ?_
        simp [Bool.and_comm]
      rw [hfilter] at hverts
      exact hverts
    · have hring := hv.ring _ hcj
      have hmemj : j ∈ h.col j :: vert (h.col j) := List.mem_cons_of_mem _ hj
      rw [List.reverse_cons, relinks, List.foldl_append]
      show ((h.unlink j).unlinks q |>.relinks q.reverse).relink j = h
      rw [hback]
      exact relink_unlink (hring.prev_next hmemj) (hring.next_prev hmemj)

theorem Closed.unlinks (hc : h.Closed) {q : List Ptr} (hq : ∀ j ∈ q, h.col j ≠ c) :
    Aside c h (h.unlinks q) := by
  induction q generalizing h with
  | nil => exact .refl hc c
  | cons j q ih =>
    have ha := hc.unlink (hq j List.mem_cons_self)
    refine ha.trans (ih ha.closed fun i hi => ?_)
    rw [ha.col]
    exact hq i (List.mem_cons_of_mem _ hi)

theorem Closed.relinks (hc : h.Closed) {q : List Ptr} (hq : ∀ j ∈ q, h.col j ≠ c) :
    Aside c h (h.relinks q) := by
  induction q generalizing h with
  | nil => exact .refl hc c
  | cons j q ih =>
    have ha := hc.relink (hq j List.mem_cons_self)
    refine ha.trans (ih ha.closed fun i hi => ?_)
    rw [ha.col]
    exact hq i (List.mem_cons_of_mem _ hi)

theorem foldlM_ok (f : Nodes → Ptr → Nodes) (l : List Ptr) (h : Nodes) :
    (l.foldlM (fun h j => .ok (f h j)) h : Except Fault Nodes) = .ok (l.foldl f h) := by
  induction l generalizing h with
  | nil => rfl
  | cons j l ih => exact ih _

/-! ## One column -/

theorem unlinkColumn_eq (h : Nodes) (c : Ptr) : h.unlinkColumn c = { h with
    left := update h.left (h.right c) (h.left c)
    right := update h.right (h.left c) (h.right c) } := by
  have hleft : update h.left (h.right c) (h.left c) c = h.left c := by
    by_cases hc : c = h.right c
    · rw [← hc, update_self]
    · rw [update_of_ne hc]
  simp only [unlinkColumn, setLeft, setRight, hleft]

theorem relinkColumn_unlinkColumn (hl : h.left (h.right c) = c) (hr : h.right (h.left c) = c) :
    (h.unlinkColumn c).relinkColumn c = h := by
  have hc : update h.right (h.left c) (h.right c) c = h.right c := by
    by_cases hj : c = h.left c
    · rw [← hj, update_self]
    · rw [update_of_ne hj]
  have hlefts : update h.left (h.right c) c = h.left := by
    nth_rewrite 2 [← hl]
    exact update_eq_self _ _
  have hrights : update h.right (h.left c) c = h.right := by
    nth_rewrite 2 [← hr]
    exact update_eq_self _ _
  rw [unlinkColumn_eq]
  simp only [relinkColumn, setLeft, setRight, hc, update_idem, hlefts, hrights]

/-- The assignments to `left` and `right` of one column's neighbours. -/
theorem Closed.columns (hc : h.Closed) {a b u v : Ptr} (ha : h.col a = a) (hb : h.col b = b)
    (hu : h.col u = u) (hv : h.col v = v) :
    Closed { h with left := update h.left a u, right := update h.right b v } ∧
      Static h
        { h with left := update h.left a u, right := update h.right b v } := by
  refine ⟨⟨hc.up, hc.down, fun p hp => ?_, fun p hp => ?_⟩,
    ⟨rfl, rfl, fun p hp => ?_, fun p hp => ?_⟩⟩
  · by_cases hpa : p = a
    · subst hpa
      simpa using hu
    · simpa [hpa] using hc.left p hp
  · by_cases hpb : p = b
    · subst hpb
      simpa using hv
    · simpa [hpb] using hc.right p hp
  · exact update_of_ne (fun heq : p = a => hp (heq ▸ ha)) _ _
  · exact update_of_ne (fun heq : p = b => hp (heq ▸ hb)) _ _

theorem Closed.unlinkColumn (hc : h.Closed) (hcc : h.col c = c) :
    (h.unlinkColumn c).Closed ∧ Static h (h.unlinkColumn c) := by
  rw [unlinkColumn_eq]
  exact hc.columns (hc.right c hcc) (hc.left c hcc) (hc.left c hcc) (hc.right c hcc)

/-- A column with its rows: each a node of the column, and the other nodes of its ring. -/
structure Column (h : Nodes) (c : Ptr) (rows : List (Ptr × List Ptr)) : Prop where
  self : h.col c = c
  ring : Ring h.down h.up c (rows.map Prod.fst)
  col : ∀ r ∈ rows, h.col r.1 = c
  row : ∀ r ∈ rows, Ring h.right h.left r.1 r.2
  other : ∀ r ∈ rows, ∀ j ∈ r.2, h.col j ≠ c
  node : ∀ r ∈ rows, ∀ j ∈ r.1 :: r.2, h.col j ≠ j
  few : rows.length < kMaxNodes
  short : ∀ r ∈ rows, r.2.length < kMaxNodes

theorem unlink_row {row : Ptr} {l : List Ptr} (hr : Ring h.right h.left row l)
    (hl : l.length < kMaxNodes) :
    each right row (fun h j => .ok (h.unlink j)) kMaxNodes h (h.right row) = .ok (h.unlinks l) := by
  refine each_eq (P := fun h' => h'.right = h.right) (fun h₁ p h₂ hP _ hx => ?_)
    (fun h₁ p hP _ => congrFun hP p) hr.path hr.not_mem hl rfl (foldlM_ok ..)
  cases hx
  rw [← hP, unlink_eq]

theorem relink_row {row : Ptr} {l : List Ptr} (hr : Ring h.right h.left row l)
    (hl : l.length < kMaxNodes) :
    each left row (fun h j => .ok (h.relink j)) kMaxNodes h (h.left row) =
      .ok (h.relinks l.reverse) := by
  refine each_eq (P := fun h' => h'.left = h.left) (fun h₁ p h₂ hP _ hx => ?_)
    (fun h₁ p hP _ => congrFun hP p) hr.reverse.path hr.reverse.not_mem (by simpa using hl) rfl
    (foldlM_ok ..)
  cases hx
  rw [← hP, relink_eq]

namespace Column

variable {rows : List (Ptr × List Ptr)}

theorem congr (hcol : Column h c rows) (hs : Static h h')
    (hv : ∀ p, h.col p = c → h'.up p = h.up p ∧ h'.down p = h.down p) : Column h' c rows := by
  have hring : ∀ p ∈ c :: rows.map Prod.fst, h.col p = c := by
    intro p hp
    rcases List.mem_cons.1 hp with rfl | hp
    · exact hcol.self
    · obtain ⟨r, hr, rfl⟩ := List.mem_map.1 hp
      exact hcol.col r hr
  refine ⟨?_,
    hcol.ring.congr (fun p hp => (hv p (hring p hp)).2) (fun p hp => (hv p (hring p hp)).1),
    ?_, fun r hr => (hcol.row r hr).congr (fun p hp => hs.right p (hcol.node r hr p hp))
      (fun p hp => hs.left p (hcol.node r hr p hp)), ?_, ?_, hcol.few, hcol.short⟩
  · rw [hs.col]
    exact hcol.self
  · rw [hs.col]
    exact hcol.col
  · rw [hs.col]
    exact hcol.other
  · rw [hs.col]
    exact hcol.node

/-- A row, when others have been bypassed before it. -/
theorem unlink_row (hcol : Column h c rows) (ha : Aside c h h') {r : Ptr × List Ptr}
    (hr : r ∈ rows) :
    each right r.1 (fun h j => .ok (h.unlink j)) kMaxNodes h' (h'.right r.1) =
        .ok (h'.unlinks r.2) ∧
      Aside c h (h'.unlinks r.2) := by
  have hring := hcol.row r hr
  rw [← ha.right, ← ha.left] at hring
  refine ⟨Nodes.unlink_row hring (hcol.short r hr), ha.trans (ha.closed.unlinks ?_)⟩
  rw [ha.col]
  exact hcol.other r hr

theorem relink_row (hcol : Column h c rows) (ha : Aside c h h') {r : Ptr × List Ptr}
    (hr : r ∈ rows) :
    each left r.1 (fun h j => .ok (h.relink j)) kMaxNodes h' (h'.left r.1) =
        .ok (h'.relinks r.2.reverse) ∧
      Aside c h (h'.relinks r.2.reverse) := by
  have hring := hcol.row r hr
  rw [← ha.right, ← ha.left] at hring
  refine ⟨Nodes.relink_row hring (hcol.short r hr), ha.trans (ha.closed.relinks fun j hj => ?_)⟩
  rw [ha.col]
  exact hcol.other r hr j (List.mem_reverse.1 hj)

/-- A loop over rows, of which each leaves the column alone. -/
theorem each_rows {next : Nodes → Ptr → Ptr} {body : Nodes → Ptr → Except Fault Nodes}
    {f : Nodes → Ptr × List Ptr → Nodes} (hc : h.Closed)
    (hbody : ∀ h₁ r, r ∈ rows → Aside c h h₁ →
      body h₁ r.1 = .ok (f h₁ r) ∧ Aside c h (f h₁ r) ∧ next h₁ r.1 = next h r.1)
    (hpath : Path (next h) p (rows.map Prod.fst) c) (hstop : c ∉ rows.map Prod.fst)
    (hfew : rows.length < kMaxNodes) : each next c body kMaxNodes h p = .ok (rows.foldl f h) := by
  refine each_eq (P := Aside c h) (fun h₁ p h₂ ha hp hx => ?_) (fun h₁ p ha hp => ?_) hpath hstop
    (by simpa using hfew) (.refl hc c) ?_
  · obtain ⟨r, hr, rfl⟩ := List.mem_map.1 hp
    obtain ⟨heq, ha', -⟩ := hbody h₁ r hr ha
    cases heq.symm.trans hx
    exact ha'
  · obtain ⟨r, hr, rfl⟩ := List.mem_map.1 hp
    exact (hbody h₁ r hr ha).2.2
  · suffices hloop : ∀ rs ⊆ rows, ∀ h₁, Aside c h h₁ →
        (rs.map Prod.fst).foldlM body h₁ = .ok (rs.foldl f h₁) from
      hloop rows (List.Subset.refl _) h (.refl hc c)
    intro rs
    induction rs with
    | nil => exact fun _ _ _ => rfl
    | cons r rs ih =>
      intro hsub h₁ ha
      obtain ⟨heq, ha', -⟩ := hbody h₁ r (hsub List.mem_cons_self) ha
      rw [List.map_cons, List.foldlM_cons, heq, ok_bind]
      exact ih (fun r hr => hsub (List.mem_cons_of_mem _ hr)) _ ha'

theorem unlink_rows (hcol : Column h c rows) (hc : h.Closed) :
    each down c
      (fun h row => each right row (fun h j => .ok (h.unlink j)) kMaxNodes h (h.right row))
      kMaxNodes h (h.down c) = .ok (h.unlinks (rows.flatMap Prod.snd)) := by
  rw [unlinks, List.foldl_flatMap]
  refine each_rows hc (fun h₁ r hr ha => ?_) hcol.ring.path hcol.ring.not_mem hcol.few
  obtain ⟨heq, ha'⟩ := hcol.unlink_row ha hr
  exact ⟨heq, ha', ha.down _ (hcol.col r hr)⟩

theorem relink_rows (hcol : Column h c rows) (hc : h.Closed) :
    each up c (fun h row => each left row (fun h j => .ok (h.relink j)) kMaxNodes h (h.left row))
      kMaxNodes h (h.up c) = .ok (h.relinks (rows.flatMap Prod.snd).reverse) := by
  have hpath := hcol.ring.reverse.path
  rw [← List.map_reverse] at hpath
  have hstop := hcol.ring.reverse.not_mem
  rw [← List.map_reverse] at hstop
  rw [relinks, List.reverse_flatMap, List.foldl_flatMap]
  refine each_rows hc (fun h₁ r hr ha => ?_) hpath hstop (by simpa using hcol.few)
  have hr := List.mem_reverse.1 hr
  obtain ⟨heq, ha'⟩ := hcol.relink_row ha hr
  exact ⟨heq, ha', ha.up _ (hcol.col r hr)⟩

theorem cover_eq (hcol : Column h c rows) (hc : h.Closed) :
    h.cover c = .ok ((h.unlinkColumn c).unlinks (rows.flatMap Prod.snd)) := by
  obtain ⟨hc', hs⟩ := hc.unlinkColumn hcol.self
  have hcol' : Column (h.unlinkColumn c) c rows := by
    refine hcol.congr hs fun p _ => ?_
    rw [unlinkColumn_eq]
    exact ⟨rfl, rfl⟩
  exact hcol'.unlink_rows hc'

theorem uncover_eq (hcol : Column h c rows) (hc : h.Closed) :
    h.uncover c = .ok ((h.relinks (rows.flatMap Prod.snd).reverse).relinkColumn c) := by
  rw [uncover, hcol.relink_rows hc, ok_bind]

end Column

end Nodes
end Sudoku
end TinyMuduo

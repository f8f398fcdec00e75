import TinyMuduo.Sudoku.Search

/-!
# Sudoku.Build

How the constructor links a matrix up: one column after the other at the end of the header, then one
option after the other, with its nodes at the ends of their columns.

The nodes are handed out in order, and `Grown` says that no link goes to one that was not.
-/

namespace TinyMuduo
namespace Sudoku

open ExactCover Result Nodes Function

namespace Nodes

variable {n : Nodes} {c x p : Ptr} {name : Int}

theorem put_left_eq (hx : c ≠ x) : n.put_left c x = { n with
    left := update (update n.left x (n.left c)) c x
    right := update (update n.right x c) (n.left c) x } := by
  simp only [put_left, setLeft, setRight, update_of_ne hx]

/-- `new_row`, when the column is known. -/
theorem create_put_up_eq (hx : c ≠ x) : (n.create x c name).put_up c x =
    { left := update n.left x x
      right := update n.right x x
      up := update (update n.up x (n.up c)) c x
      down := update (update n.down x c) (n.up c) x
      col := update n.col x c
      name := update n.name x name
      size := update (update n.size x 0) c (n.size c + 1) } := by
  simp only [put_up, create, setUp, setDown, setSize, update_of_ne hx,
    update_idem]

end Nodes

/-- Links go to nodes before `cur` only. -/
structure Below (n : Nodes) (cur : Ptr) : Prop where
  left : ∀ p, n.left p < cur
  right : ∀ p, n.right p < cur
  up : ∀ p, n.up p < cur
  down : ∀ p, n.down p < cur

/-- Columns and their nodes, all of them before `cur`. -/
structure Grown (n : Nodes) (cur : Ptr) (cols : List Ptr) (vert : Ptr → List Ptr) : Prop where
  closed : n.Closed
  below : Below n cur
  verts : Verts n cols vert
  lt : ∀ c ∈ cols, ∀ p ∈ c :: vert c, p < cur

theorem update_lt {f : Ptr → Ptr} {a v cur p : Ptr} (hf : ∀ p, f p < cur) (hv : v < cur) :
    update f a v p < cur := by
  by_cases hp : p = a
  · rw [hp, update_self]
    exact hv
  · rw [update_of_ne hp]
    exact hf p

/-- Nothing is different before `cur`, as far as rows go. -/
structure Same (cur : Ptr) (n n' : Nodes) : Prop where
  left : ∀ p < cur, n'.left p = n.left p
  right : ∀ p < cur, n'.right p = n.right p
  col : ∀ p < cur, n'.col p = n.col p
  name : ∀ p < cur, n'.name p = n.name p

namespace Same

variable {cur : Ptr} {n n' n'' : Nodes}

theorem refl (cur : Ptr) (n : Nodes) : Same cur n n :=
  ⟨fun _ _ => rfl, fun _ _ => rfl, fun _ _ => rfl, fun _ _ => rfl⟩

theorem trans (h : Same cur n n') (h' : Same cur n' n'') : Same cur n n'' where
  left p hp := (h'.left p hp).trans (h.left p hp)
  right p hp := (h'.right p hp).trans (h.right p hp)
  col p hp := (h'.col p hp).trans (h.col p hp)
  name p hp := (h'.name p hp).trans (h.name p hp)

theorem mono {cur' : Ptr} (h : Same cur n n') (hle : cur' ≤ cur) : Same cur' n n' where
  left p hp := h.left p (Nat.lt_of_lt_of_le hp hle)
  right p hp := h.right p (Nat.lt_of_lt_of_le hp hle)
  col p hp := h.col p (Nat.lt_of_lt_of_le hp hle)
  name p hp := h.name p (Nat.lt_of_lt_of_le hp hle)

end Same

/-- The nodes of a row, one for each column. -/
def addNodes (k : Ptr → Int) : Nodes → Ptr → List Ptr → Nodes
  | n, _, [] => n
  | n, cur, c :: cs => addNodes k ((n.create cur c (k c)).put_up c cur) (cur + 1) cs

section Grow

variable {n : Nodes} {cur c x d p : Ptr} {cols : List Ptr} {vert : Ptr → List Ptr} {name : Int}

/-! ## A node -/

namespace Grown

theorem self (h : Grown n cur cols vert) (hc : c ∈ cols) : n.col c = c :=
  h.verts.col c hc c List.mem_cons_self

theorem ne (h : Grown n cur cols vert) (hc : c ∈ cols) : c ≠ cur :=
  Nat.ne_of_lt (h.lt c hc c List.mem_cons_self)

theorem new_row_closed (h : Grown n cur cols vert) (hc : c ∈ cols) :
    ((n.create cur c name).put_up c cur).Closed := by
  have hcx := h.ne hc
  have hself := h.self hc
  have hups : n.col (n.up c) = c := by rw [h.closed.up, hself]
  have hupx : n.up c ≠ cur := Nat.ne_of_lt (h.below.up c)
  have hold : ∀ p, p < cur → update n.col cur c p = n.col p := fun p hp =>
    update_of_ne (Nat.ne_of_lt hp) _ _
  have hcur : ∀ p, update n.col cur c p = p → p ≠ cur := by
    rintro p hp rfl
    rw [update_self] at hp
    exact hcx hp
  rw [create_put_up_eq hcx]
  refine ⟨fun p => ?_, fun p => ?_, fun p hp => ?_, fun p hp => ?_⟩
  · dsimp only
    by_cases hpc : p = c
    · rw [hpc, update_self, update_self, update_of_ne hcx, hself]
    · rw [update_of_ne hpc]
      by_cases hpx : p = cur
      · rw [hpx, update_self, update_self, hold _ (h.below.up c), hups]
      · rw [update_of_ne hpx, update_of_ne hpx, hold _ (h.below.up p),
          h.closed.up]
  · dsimp only
    by_cases hpu : p = n.up c
    · rw [hpu, update_self, update_self, update_of_ne hupx, hups]
    · rw [update_of_ne hpu]
      by_cases hpx : p = cur
      · rw [hpx, update_self, update_self, update_of_ne hcx, hself]
      · rw [update_of_ne hpx, update_of_ne hpx, hold _ (h.below.down p),
          h.closed.down]
  · have hpx := hcur p hp
    dsimp only at hp ⊢
    rw [update_of_ne hpx] at hp ⊢
    rw [hold _ (h.below.left p), h.closed.left p hp]
  · have hpx := hcur p hp
    dsimp only at hp ⊢
    rw [update_of_ne hpx] at hp ⊢
    rw [hold _ (h.below.right p), h.closed.right p hp]

theorem new_row_below (h : Grown n cur cols vert) (hc : c ∈ cols) :
    Below ((n.create cur c name).put_up c cur) (cur + 1) := by
  have hlt : ∀ {p}, p < cur → p < cur + 1 := fun hp => Nat.lt_succ_of_lt hp
  have hcur := Nat.lt_succ_self cur
  rw [create_put_up_eq (h.ne hc)]
  exact ⟨fun p => update_lt (fun p => hlt (h.below.left p)) hcur,
    fun p => update_lt (fun p => hlt (h.below.right p)) hcur,
    fun p => update_lt (fun p => update_lt (fun p => hlt (h.below.up p)) (hlt (h.below.up c))) hcur,
    fun p => update_lt (fun p => update_lt (fun p => hlt (h.below.down p))
      (hlt (h.lt c hc c List.mem_cons_self))) hcur⟩

theorem new_row_verts (h : Grown n cur cols vert) (hc : c ∈ cols) :
    Verts ((n.create cur c name).put_up c cur) cols
      (fun d => if d = c then vert c ++ [cur] else vert d) := by
  have hcx := h.ne hc
  have hself := h.self hc
  -- the cells of another column
  have hcell : ∀ d ∈ cols, d ≠ c → ∀ p ∈ d :: vert d, p ≠ c ∧ p ≠ n.up c ∧ p ≠ cur := by
    intro d hd hdc p hp
    have hcol := h.verts.col d hd p hp
    refine ⟨?_, ?_, Nat.ne_of_lt (h.lt d hd p hp)⟩
    · rintro rfl
      exact hdc (hcol.symm.trans hself)
    · rintro rfl
      rw [h.closed.up, hself] at hcol
      exact hdc hcol.symm
  rw [create_put_up_eq hcx]
  refine ⟨fun d hd => ?_, fun d hd p hp => ?_, fun d hd => ?_⟩
  · dsimp only
    by_cases hdc : d = c
    · subst hdc
      rw [if_pos rfl]
      exact (h.verts.ring d hc).link fun hmem => Nat.lt_irrefl _ (h.lt d hc _ hmem)
    · rw [if_neg hdc]
      refine (h.verts.ring d hd).congr (fun p hp => ?_) (fun p hp => ?_)
      · obtain ⟨-, hpu, hpx⟩ := hcell d hd hdc p hp
        rw [update_of_ne hpu, update_of_ne hpx]
      · obtain ⟨hpc, -, hpx⟩ := hcell d hd hdc p hp
        rw [update_of_ne hpc, update_of_ne hpx]
  · dsimp only at hp ⊢
    by_cases hdc : d = c
    · subst hdc
      rw [if_pos rfl, ← List.cons_append] at hp
      rcases List.mem_append.1 hp with hp | hp
      · rw [update_of_ne (Nat.ne_of_lt (h.lt d hd p hp)), h.verts.col d hd p hp]
      · rw [List.mem_singleton.1 hp, update_self]
    · rw [if_neg hdc] at hp
      rw [update_of_ne (Nat.ne_of_lt (h.lt d hd p hp)), h.verts.col d hd p hp]
  · dsimp only
    by_cases hdc : d = c
    · subst hdc
      rw [update_self, if_pos rfl, h.verts.size d hd]
      simp
    · rw [update_of_ne hdc, update_of_ne (h.ne hd), if_neg hdc, h.verts.size d hd]

/-- A new node at the end of a column. -/
theorem new_row (h : Grown n cur cols vert) (hc : c ∈ cols) :
    Grown ((n.create cur c name).put_up c cur) (cur + 1) cols
      (fun d => if d = c then vert c ++ [cur] else vert d) where
  closed := h.new_row_closed hc
  below := h.new_row_below hc
  verts := h.new_row_verts hc
  lt d hd p hp := by
    by_cases hdc : d = c
    · subst hdc
      rw [if_pos rfl, ← List.cons_append] at hp
      rcases List.mem_append.1 hp with hp | hp
      · exact Nat.lt_succ_of_lt (h.lt d hd p hp)
      · rw [List.mem_singleton.1 hp]
        exact Nat.lt_succ_self _
    · rw [if_neg hdc] at hp
      exact Nat.lt_succ_of_lt (h.lt d hd p hp)

/-- What the new node says. -/
theorem new_row_self (h : Grown n cur cols vert) (hc : c ∈ cols) (name : Int) :
    Same cur n ((n.create cur c name).put_up c cur) ∧
    ((n.create cur c name).put_up c cur).left cur = cur ∧
    ((n.create cur c name).put_up c cur).right cur = cur ∧
    ((n.create cur c name).put_up c cur).col cur = c ∧
    ((n.create cur c name).put_up c cur).name cur = name := by
  rw [create_put_up_eq (h.ne hc)]
  refine ⟨⟨fun p hp => ?_, fun p hp => ?_, fun p hp => ?_, fun p hp => ?_⟩, ?_, ?_, ?_, ?_⟩
  · exact update_of_ne (Nat.ne_of_lt hp) _ _
  · exact update_of_ne (Nat.ne_of_lt hp) _ _
  · exact update_of_ne (Nat.ne_of_lt hp) _ _
  · exact update_of_ne (Nat.ne_of_lt hp) _ _
  · exact update_self ..
  · exact update_self ..
  · exact update_self ..
  · exact update_self ..

/-! ## A column -/

theorem create_put_left_eq (hcx : c ≠ x) : (n.create x x name).put_left c x =
    { left := update (update n.left x (n.left c)) c x
      right := update (update n.right x c) (n.left c) x
      up := update n.up x x
      down := update n.down x x
      col := update n.col x x
      name := update n.name x name
      size := update n.size x 0 } := by
  rw [put_left_eq hcx]
  simp only [create, update_of_ne hcx, update_idem]

/-- A new column at the end of the header. -/
theorem append_column (h : Grown n cur cols fun _ => []) (hr : Ring n.right n.left c cols)
    (hcx : c < cur) (hself : n.col c = c) (name : Int) :
    Grown ((n.create cur cur name).put_left c cur) (cur + 1) (cols ++ [cur]) (fun _ => []) ∧
      Ring ((n.create cur cur name).put_left c cur).right
        ((n.create cur cur name).put_left c cur).left c (cols ++ [cur]) := by
  have hne := Nat.ne_of_lt hcx
  have hold : ∀ p, p < cur → update n.col cur cur p = n.col p := fun p hp =>
    update_of_ne (Nat.ne_of_lt hp) _ _
  have hlt : ∀ {p}, p < cur → p < cur + 1 := fun hp => Nat.lt_succ_of_lt hp
  have hcur := Nat.lt_succ_self cur
  have hhead : ∀ p, update n.col cur cur p = p → p ≠ cur → n.col p = p := by
    intro p hp hpx
    rwa [update_of_ne hpx] at hp
  have hlink : Ring (update (update n.right cur c) (n.left c) cur)
      (update (update n.left cur (n.left c)) c cur) c (cols ++ [cur]) := by
    refine hr.link fun hmem => ?_
    rcases List.mem_cons.1 hmem with hmem | hmem
    · exact hne hmem.symm
    · exact h.ne hmem rfl
  have hcols : ∀ d ∈ cols ++ [cur], d = cur ∨ d ∈ cols ∧ d ≠ cur := by
    intro d hd
    rcases List.mem_append.1 hd with hd | hd
    · exact .inr ⟨hd, h.ne hd⟩
    · exact .inl (List.mem_singleton.1 hd)
  rw [create_put_left_eq hne]
  refine ⟨⟨⟨fun p => ?_, fun p => ?_, fun p hp => ?_, fun p hp => ?_⟩, ⟨?_, ?_, ?_, ?_⟩,
    ⟨fun d hd => ?_, fun d hd p hp => ?_, fun d hd => ?_⟩, fun d hd p hp => ?_⟩, hlink⟩
  · dsimp only
    by_cases hpx : p = cur
    · rw [hpx, update_self]
    · rw [update_of_ne hpx, update_of_ne hpx, hold _ (h.below.up p), h.closed.up]
  · dsimp only
    by_cases hpx : p = cur
    · rw [hpx, update_self]
    · rw [update_of_ne hpx, update_of_ne hpx, hold _ (h.below.down p),
        h.closed.down]
  · dsimp only at hp ⊢
    by_cases hpc : p = c
    · rw [hpc, update_self, update_self]
    · rw [update_of_ne hpc]
      by_cases hpx : p = cur
      · rw [hpx, update_self, hold _ (h.below.left c), h.closed.left c hself]
      · rw [update_of_ne hpx, hold _ (h.below.left p), h.closed.left p (hhead p hp hpx)]
  · dsimp only at hp ⊢
    by_cases hpl : p = n.left c
    · rw [hpl, update_self, update_self]
    · rw [update_of_ne hpl]
      by_cases hpx : p = cur
      · rw [hpx, update_self, hold c hcx, hself]
      · rw [update_of_ne hpx, hold _ (h.below.right p), h.closed.right p (hhead p hp hpx)]
  · exact fun p => update_lt (fun p => update_lt (fun p => hlt (h.below.left p))
      (hlt (h.below.left c))) hcur
  · exact fun p => update_lt (fun p => update_lt (fun p => hlt (h.below.right p)) (hlt hcx)) hcur
  · exact fun p => update_lt (fun p => hlt (h.below.up p)) hcur
  · exact fun p => update_lt (fun p => hlt (h.below.down p)) hcur
  · rcases hcols d hd with rfl | ⟨hd, hdx⟩
    · exact .singleton (update_self ..) (update_self ..)
    · refine (h.verts.ring d hd).congr (fun p hp => ?_) (fun p hp => ?_)
      · rw [List.mem_singleton.1 hp]
        exact update_of_ne hdx _ _
      · rw [List.mem_singleton.1 hp]
        exact update_of_ne hdx _ _
  · rw [List.mem_singleton.1 hp]
    rcases hcols d hd with rfl | ⟨hd, hdx⟩
    · exact update_self ..
    · exact (update_of_ne hdx _ _).trans (h.self hd)
  · rcases hcols d hd with rfl | ⟨hd, hdx⟩
    · exact update_self ..
    · exact (update_of_ne hdx _ _).trans (h.verts.size d hd)
  · rw [List.mem_singleton.1 hp]
    rcases hcols d hd with rfl | ⟨hd, hdx⟩
    · exact hcur
    · exact hlt (h.lt d hd d List.mem_cons_self)

/-! ## A row -/

variable {k : Ptr → Int} {cs : List Ptr}

theorem addNodes (h : Grown n cur cols vert) (hcs : cs.Nodup) (hsub : cs ⊆ cols) :
    Grown (addNodes k n cur cs) (cur + cs.length) cols
        (fun d => vert d ++ if d ∈ cs then [cur + cs.idxOf d] else []) ∧
      Same cur n (addNodes k n cur cs) ∧
      ∀ c ∈ cs, (addNodes k n cur cs).left (cur + cs.idxOf c) = cur + cs.idxOf c ∧
        (addNodes k n cur cs).right (cur + cs.idxOf c) = cur + cs.idxOf c ∧
        (addNodes k n cur cs).col (cur + cs.idxOf c) = c ∧
        (addNodes k n cur cs).name (cur + cs.idxOf c) = k c := by
  induction cs generalizing n cur vert with
  | nil =>
    refine ⟨?_, .refl cur n, fun c hc => by cases hc⟩
    simpa [Sudoku.addNodes] using h
  | cons c cs ih =>
    obtain ⟨hc, hcs⟩ := List.nodup_cons.1 hcs
    have hccols := hsub List.mem_cons_self
    obtain ⟨hsame, hleft, hright, hcol, hname⟩ := h.new_row_self hccols (k c)
    obtain ⟨hgrown, hsame', hnew⟩ := ih (h.new_row hccols) hcs fun d hd =>
      hsub (List.mem_cons_of_mem _ hd)
    have hidx : ∀ d ∈ cs, cur + (c :: cs).idxOf d = cur + 1 + cs.idxOf d := by
      intro d hd
      have hcd : c ≠ d := fun heq => hc (heq ▸ hd)
      rw [List.idxOf_cons_ne _ hcd, Nat.succ_eq_add_one, Nat.add_assoc, Nat.add_comm 1]
    refine ⟨?_, hsame.trans (hsame'.mono (Nat.le_succ cur)), fun d hd => ?_⟩
    · have hlen : cur + (c :: cs).length = cur + 1 + cs.length := by
        rw [List.length_cons, Nat.add_assoc, Nat.add_comm 1]
      have hvert : (fun d => vert d ++ if d ∈ c :: cs then [cur + (c :: cs).idxOf d] else []) =
          fun d => (if d = c then vert c ++ [cur] else vert d) ++
            if d ∈ cs then [cur + 1 + cs.idxOf d] else [] := by
        funext d
        by_cases hdc : d = c
        · subst hdc
          simp [hc]
        · by_cases hd : d ∈ cs
          · simp [hdc, hd, hidx d hd]
          · simp [hdc, hd]
      rw [hlen, hvert]
      exact hgrown
    · rcases List.mem_cons.1 hd with rfl | hd
      · rw [List.idxOf_cons_self, Nat.add_zero]
        have hcur := Nat.lt_succ_self cur
        exact ⟨(hsame'.left _ hcur).trans hleft, (hsame'.right _ hcur).trans hright,
          (hsame'.col _ hcur).trans hcol, (hsame'.name _ hcur).trans hname⟩
      · rw [hidx d hd]
        exact hnew d hd

end Grown

/-- The nodes of a row are put to the left of its first one. -/
def linkRow (n : Nodes) (c : Ptr) (xs : List Ptr) : Nodes := xs.foldl (fun n x => n.put_left c x) n

/-- What `put_left` does not touch. -/
structure Linked (cur cur' : Ptr) (n n' : Nodes) : Prop where
  closed : n'.Closed
  below : Below n' cur'
  same : Same cur n n'
  up : n'.up = n.up
  down : n'.down = n.down
  col : n'.col = n.col
  name : n'.name = n.name
  size : n'.size = n.size

theorem linkRow_spec {l xs : List Ptr} {cur' : Ptr} (hc : n.Closed) (hb : Below n cur')
    (hr : Ring n.right n.left c l) (hnodup : (c :: (l ++ xs)).Nodup)
    (hnew : ∀ p ∈ c :: (l ++ xs), cur ≤ p ∧ p < cur' ∧ n.col p ≠ p) :
    Ring (linkRow n c xs).right (linkRow n c xs).left c (l ++ xs) ∧
      Linked cur cur' n (linkRow n c xs) := by
  induction xs generalizing n l with
  | nil =>
    rw [List.append_nil]
    exact ⟨hr, hc, hb, .refl cur n, rfl, rfl, rfl, rfl, rfl⟩
  | cons x xs ih =>
    have hmem : ∀ p ∈ c :: l, p ∈ c :: (l ++ x :: xs) := by
      intro p hp
      rcases List.mem_cons.1 hp with rfl | hp
      · exact List.mem_cons_self
      · exact List.mem_cons_of_mem _ (List.mem_append_left _ hp)
    have hx : x ∈ c :: (l ++ x :: xs) := by simp
    have hxl : x ∉ c :: l := by
      rw [← List.cons_append] at hnodup
      exact fun hmem => (List.nodup_append.1 hnodup).2.2 x hmem x List.mem_cons_self rfl
    have hcx : c ≠ x := fun heq => hxl (heq ▸ List.mem_cons_self)
    obtain ⟨hcurx, hxcur, hcolx⟩ := hnew x hx
    obtain ⟨hcurc, hccur, hcolc⟩ := hnew c List.mem_cons_self
    obtain ⟨hcurl, hlcur, hcoll⟩ := hnew _ (hmem _ (hr.prev_mem List.mem_cons_self))
    have heq := put_left_eq (n := n) hcx
    have hring : Ring (n.put_left c x).right (n.put_left c x).left c (l ++ [x]) := by
      rw [heq]
      exact hr.link hxl
    have hlinked : Linked cur cur' n (n.put_left c x) := by
      rw [heq]
      refine ⟨⟨hc.up, hc.down, fun p hp => ?_, fun p hp => ?_⟩, ⟨fun p => ?_, fun p => ?_, hb.up,
        hb.down⟩, ⟨fun p hp => ?_, fun p hp => ?_, fun p hp => rfl, fun p hp => rfl⟩, rfl, rfl, rfl,
        rfl, rfl⟩
      · have hpc : p ≠ c := fun heq => hcolc (heq ▸ hp)
        have hpx : p ≠ x := fun heq => hcolx (heq ▸ hp)
        dsimp only at hp ⊢
        rw [update_of_ne hpc, update_of_ne hpx, hc.left p hp]
      · have hpl : p ≠ n.left c := fun heq => hcoll (heq ▸ hp)
        have hpx : p ≠ x := fun heq => hcolx (heq ▸ hp)
        dsimp only at hp ⊢
        rw [update_of_ne hpl, update_of_ne hpx, hc.right p hp]
      · exact update_lt (fun p => update_lt hb.left (hb.left c)) hxcur
      · exact update_lt (fun p => update_lt hb.right hccur) hxcur
      · dsimp only
        rw [update_of_ne (Nat.ne_of_lt (Nat.lt_of_lt_of_le hp hcurc)),
          update_of_ne (Nat.ne_of_lt (Nat.lt_of_lt_of_le hp hcurx))]
      · dsimp only
        rw [update_of_ne (Nat.ne_of_lt (Nat.lt_of_lt_of_le hp hcurl)),
          update_of_ne (Nat.ne_of_lt (Nat.lt_of_lt_of_le hp hcurx))]
    have happend : l ++ [x] ++ xs = l ++ x :: xs := by simp
    obtain ⟨hring', h'⟩ := ih hlinked.closed hlinked.below hring (by rwa [happend]) (by
      rw [happend, hlinked.col]
      exact hnew)
    rw [happend] at hring'
    refine ⟨hring', h'.closed, h'.below, hlinked.same.trans h'.same, h'.up.trans hlinked.up,
      h'.down.trans hlinked.down, h'.col.trans hlinked.col, h'.name.trans hlinked.name,
      h'.size.trans hlinked.size⟩

end Grow

/-- The ring of a row, from any of its nodes. -/
theorem ring_others {next prev f : Ptr → Ptr} {c d : Ptr} {cs : List Ptr} (hcs : (c :: cs).Nodup)
    (hr : Ring next prev (f c) (cs.map f)) (hd : d ∈ c :: cs) :
    Ring next prev (f d) ((others d (c :: cs)).map f) := by
  rcases List.mem_cons.1 hd with rfl | hd
  · have heq : others d ([] ++ d :: cs) = cs ++ [] := others_append List.not_mem_nil
    rw [List.nil_append, List.append_nil] at heq
    rw [heq]
    exact hr
  · obtain ⟨l₁, l₂, rfl⟩ := List.append_of_mem hd
    have hdl : d ∉ c :: l₁ := by
      rw [← List.cons_append] at hcs
      exact fun hmem => (List.nodup_append.1 hcs).2.2 d hmem d List.mem_cons_self rfl
    rw [← List.cons_append, others_append hdl, List.map_append, List.map_cons]
    rw [List.map_append, List.map_cons] at hr
    exact hr.rotate

theorem map_idxOf {cur c : Ptr} {cs : List Ptr} (hcs : (c :: cs).Nodup) :
    cs.map (fun d => cur + (c :: cs).idxOf d) = List.range' (cur + 1) cs.length := by
  refine List.ext_getElem (by simp) fun i hi hi' => ?_
  have hlt : i + 1 < (c :: cs).length := by simpa using hi
  have hidx := hcs.idxOf_getElem (i + 1) hlt
  rw [List.getElem_cons_succ] at hidx
  rw [List.getElem_map, hidx, List.getElem_range', Nat.one_mul, Nat.add_assoc, Nat.add_comm i]

section Option

variable {ι : Type} [DecidableEq ι] {m : Layout ι} {n : Nodes} {root cur : Ptr} {cols : List Ptr}
  {opts : List ι} {o : ι}

/-- The layout with nodes for one more option, from `cur` on. -/
def Layout.add (m : Layout ι) (o : ι) (cur : Ptr) : Layout ι :=
  { m with node := update m.node o fun d => cur + (m.columns o).idxOf d }

theorem Layout.add_node_self (m : Layout ι) (o : ι) (cur d : Ptr) :
    (m.add o cur).node o d = cur + (m.columns o).idxOf d :=
  congrFun (update_self o _ m.node) d

theorem Layout.add_node {p : ι} (hp : p ≠ o) : (m.add o cur).node p = m.node p :=
  update_of_ne hp _ _

theorem Layout.add_vert (ho : o ∉ opts) (d : Ptr) :
    (m.add o cur).vert (opts ++ [o]) d =
      m.vert opts d ++ if d ∈ m.columns o then [cur + (m.columns o).idxOf d] else [] := by
  have hold : ((m.add o cur).through opts d).map ((m.add o cur).node · d) = m.vert opts d := by
    refine List.map_congr_left fun p hp => ?_
    have hpo : p ≠ o := fun heq => ho (heq ▸ (mem_through.1 hp).1)
    rw [add_node hpo]
  rw [vert, through, List.filter_append, List.map_append]
  congr 1
  by_cases hd : d ∈ m.columns o
  · have hd' : d ∈ (m.add o cur).columns o := hd
    rw [if_pos hd, List.filter_cons_of_pos (by simpa using hd'), List.filter_nil, List.map_cons,
      List.map_nil, add_node_self]
  · have hd' : d ∉ (m.add o cur).columns o := hd
    rw [if_neg hd, List.filter_cons_of_neg (by simpa using hd'), List.filter_nil, List.map_nil]

/-- The links with a row for one more option. -/
def addRow (k : Ptr → Int) (n : Nodes) (cur : Ptr) (cs : List Ptr) : Nodes :=
  linkRow (addNodes k n cur cs) cur (List.range' (cur + 1) (cs.length - 1))

variable {k : Ptr → Int} {c : Ptr} {cs : List Ptr}

/-- The rows that were there before. -/
theorem Row.add {p : ι} {n' : Nodes} (h : Row m n p) (hp : p ≠ o) (hs : Same cur n n')
    (hlt : ∀ c ∈ m.columns p, c < cur ∧ m.node p c < cur) : Row (m.add o cur) n' p where
  nodup := h.nodup
  short := h.short
  head c hc := (hs.col c (hlt c hc).1).trans (h.head c hc)
  node c hc := by
    rw [Layout.add_node hp]
    exact h.node c hc
  col c hc := by
    rw [Layout.add_node hp, hs.col _ (hlt c hc).2]
    exact h.col c hc
  ring c hc := by
    have hcell : ∀ j ∈ m.node p c :: m.rest p c, j < cur := by
      intro j hj
      rcases List.mem_cons.1 hj with rfl | hj
      · exact (hlt c hc).2
      · obtain ⟨d, hd, -, rfl⟩ := (h.mem_rest hc).1 hj
        exact (hlt d hd).2
    rw [Layout.rest, Layout.add_node hp]
    exact (h.ring c hc).congr (fun j hj => hs.right j (hcell j hj))
      (fun j hj => hs.left j (hcell j hj))

/-- The nodes of the new row, in order. -/
theorem addRow_nodes (cur : Ptr) (hcs : m.columns o = c :: cs) (hnodup : (m.columns o).Nodup) :
    cur :: List.range' (cur + 1) cs.length = (m.columns o).map ((m.add o cur).node o) := by
  have hnode : (m.add o cur).node o = fun d => cur + (m.columns o).idxOf d :=
    funext (m.add_node_self o cur)
  rw [hcs] at hnodup
  rw [hnode, hcs, List.map_cons, List.idxOf_cons_self, map_idxOf hnodup]
  rfl

/-- The row of the new option. -/
theorem addRow_spec (hg : Grown n cur cols (m.vert opts)) (hcs : m.columns o = c :: cs)
    (hnodup : (m.columns o).Nodup) (hsub : m.columns o ⊆ cols) :
    Ring (addRow k n cur (m.columns o)).right (addRow k n cur (m.columns o)).left cur
        (List.range' (cur + 1) cs.length) ∧
      Linked cur (cur + (m.columns o).length) (addNodes k n cur (m.columns o))
        (addRow k n cur (m.columns o)) := by
  obtain ⟨hg', -, hnew⟩ := hg.addNodes (k := k) hnodup hsub
  have hlen : (m.columns o).length - 1 = cs.length := by
    rw [hcs, List.length_cons, Nat.add_sub_cancel]
  have hnodes := addRow_nodes cur hcs hnodup
  obtain ⟨hleft, hright, -⟩ := hnew c (by rw [hcs]; exact List.mem_cons_self)
  rw [hcs, List.idxOf_cons_self, Nat.add_zero, ← hcs] at hleft hright
  rw [addRow, hlen]
  refine linkRow_spec (l := []) hg'.closed hg'.below (.singleton hright hleft) ?_ fun p hp => ?_
  · exact List.nodup_range' (s := cur) (n := cs.length + 1)
  · rw [List.nil_append, hnodes] at hp
    obtain ⟨d, hd, rfl⟩ := List.mem_map.1 hp
    have hdcur : d < cur := hg.lt d (hsub hd) d List.mem_cons_self
    rw [m.add_node_self, (hnew d hd).2.2.1]
    refine ⟨Nat.le_add_right .., ?_, ?_⟩
    · exact Nat.add_lt_add_left (List.idxOf_lt_length_iff.2 hd) cur
    · exact Nat.ne_of_lt (Nat.lt_of_lt_of_le hdcur (Nat.le_add_right ..))

/-- The constructor adds an option to the matrix. -/
theorem Rep.add (h : Rep m n root cols opts) (hg : Grown n cur cols (m.vert opts))
    (hroot : root < cur) (ho : o ∉ opts) (hcs : m.columns o = c :: cs)
    (hnodup : (m.columns o).Nodup) (hsub : m.columns o ⊆ cols)
    (hshort : (m.columns o).length ≤ kMaxNodes) (hfew : opts.length + 1 < kMaxNodes) :
    Rep (m.add o cur) (addRow k n cur (m.columns o)) root cols (opts ++ [o]) ∧
      Grown (addRow k n cur (m.columns o)) (cur + (m.columns o).length) cols
        ((m.add o cur).vert (opts ++ [o])) ∧
      Same cur n (addRow k n cur (m.columns o)) ∧
      ∀ d ∈ m.columns o, (addRow k n cur (m.columns o)).name ((m.add o cur).node o d) = k d := by
  obtain ⟨hg', hsame, hnew⟩ := hg.addNodes (k := k) hnodup hsub
  obtain ⟨hring, hl⟩ := addRow_spec (k := k) hg hcs hnodup hsub
  have hs : Same cur n (addRow k n cur (m.columns o)) := hsame.trans hl.same
  have hvert : (m.add o cur).vert (opts ++ [o]) = fun d =>
      m.vert opts d ++ if d ∈ m.columns o then [cur + (m.columns o).idxOf d] else [] :=
    funext (Layout.add_vert ho)
  have hverts : Verts (addRow k n cur (m.columns o)) cols ((m.add o cur).vert (opts ++ [o])) := by
    refine ⟨?_, ?_, ?_⟩
    · rw [hl.up, hl.down, hvert]
      exact hg'.verts.ring
    · rw [hl.col, hvert]
      exact hg'.verts.col
    · rw [hl.size, hvert]
      exact hg'.verts.size
  have hlt : ∀ p ∈ opts, ∀ c ∈ m.columns p, c < cur ∧ m.node p c < cur := by
    intro p hp c hc
    have hcc := h.within p hp hc
    refine ⟨hg.lt c hcc c List.mem_cons_self, hg.lt c hcc _ (List.mem_cons_of_mem _ ?_)⟩
    exact List.mem_map.2 ⟨p, Layout.mem_through.2 ⟨hp, hc⟩, rfl⟩
  have hrow : Row (m.add o cur) (addRow k n cur (m.columns o)) o := by
    have hcol : ∀ d ∈ m.columns o,
        (addRow k n cur (m.columns o)).col ((m.add o cur).node o d) = d := by
      intro d hd
      rw [m.add_node_self, hl.col, (hnew d hd).2.2.1]
    refine ⟨hnodup, hshort, fun d hd => hverts.col d (hsub hd) d List.mem_cons_self, fun d hd => ?_,
      hcol, fun d hd => ?_⟩
    · have hdcur : d < cur := hg.lt d (hsub hd) d List.mem_cons_self
      rw [m.add_node_self]
      exact (Nat.ne_of_lt (Nat.lt_of_lt_of_le hdcur (Nat.le_add_right ..))).symm
    · have hnodes := addRow_nodes cur hcs hnodup
      rw [hcs, List.map_cons] at hnodes
      obtain ⟨hfirst, hrest⟩ := List.cons.inj hnodes
      have hring' : Ring (addRow k n cur (m.columns o)).right (addRow k n cur (m.columns o)).left
          ((m.add o cur).node o c) (cs.map ((m.add o cur).node o)) := by
        rw [← hrest, ← hfirst]
        exact hring
      have hcols : (m.add o cur).columns o = c :: cs := hcs
      rw [Layout.rest, hcols]
      rw [hcols] at hd
      rw [hcs] at hnodup
      exact ring_others hnodup hring' hd
  refine ⟨⟨hl.closed, ?_, fun d hd => hverts.col d hd d List.mem_cons_self, hverts.ring,
    hverts.size, fun p hp => ?_, fun p hp => ?_, ?_⟩, ⟨hl.closed, hl.below, hverts, ?_⟩, hs,
    fun d hd => ?_⟩
  · have hcell : ∀ p ∈ root :: cols, p < cur := by
      intro p hp
      rcases List.mem_cons.1 hp with rfl | hp
      · exact hroot
      · exact hg.lt p hp p List.mem_cons_self
    exact h.header.congr (fun p hp => hs.right p (hcell p hp)) (fun p hp => hs.left p (hcell p hp))
  · rcases List.mem_append.1 hp with hp | hp
    · exact (h.row p hp).add (fun heq => ho (heq ▸ hp)) hs (hlt p hp)
    · rw [List.mem_singleton.1 hp]
      exact hrow
  · rcases List.mem_append.1 hp with hp | hp
    · exact h.within p hp
    · rw [List.mem_singleton.1 hp]
      exact hsub
  · simpa using hfew
  · rw [hvert]
    exact hg'.lt
  · rw [hl.name, m.add_node_self, (hnew d hd).2.2.2]

end Option

end Sudoku
end TinyMuduo

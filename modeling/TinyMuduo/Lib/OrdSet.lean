import Mathlib.Data.List.Sort
import Mathlib.Data.List.TakeWhile

/-!
# Lib.OrdSet

Ordered sets as strictly sorted lists, with the operations of `std::set`: `insert` and `erase`
report what they did, `begin?` is the least element, `below`/`above` split at a lower bound. The
lemmas give each operation as a permutation of the elements and by membership.
-/

structure OrdSet (α : Type) [LinearOrder α] where
  elems : List α
  sorted : elems.Pairwise (· < ·)

namespace OrdSet

variable {α : Type} [LinearOrder α] {s : OrdSet α} {a x : α}

instance : Membership α (OrdSet α) := ⟨fun s a => a ∈ s.elems⟩

instance (a : α) (s : OrdSet α) : Decidable (a ∈ s) := inferInstanceAs (Decidable (a ∈ s.elems))

theorem mem_def : a ∈ s ↔ a ∈ s.elems := Iff.rfl

def empty : OrdSet α := ⟨[], List.Pairwise.nil⟩

def size (s : OrdSet α) : Nat := s.elems.length

def begin? (s : OrdSet α) : Option α := s.elems.head?

theorem nodup (s : OrdSet α) : s.elems.Nodup := s.sorted.imp fun h => h.ne

theorem sorted_orderedInsert (s : OrdSet α) (h : a ∉ s.elems) :
    (s.elems.orderedInsert (· ≤ ·) a).Pairwise (· < ·) := by
  have hle : (s.elems.orderedInsert (· ≤ ·) a).Pairwise (· ≤ ·) :=
    (s.sorted.imp fun h => h.le).orderedInsert a s.elems
  have hnd : (s.elems.orderedInsert (· ≤ ·) a).Nodup :=
    (List.perm_orderedInsert (· ≤ ·) a s.elems).nodup_iff.2 (List.nodup_cons.2 ⟨h, s.nodup⟩)
  exact (hle.and hnd).imp fun h => lt_of_le_of_ne h.1 h.2

/-- `set::insert`, with whether the element is new. -/
def insert (s : OrdSet α) (a : α) : OrdSet α × Bool :=
  if h : a ∈ s.elems then (s, false)
  else (⟨s.elems.orderedInsert (· ≤ ·) a, s.sorted_orderedInsert h⟩, true)

/-- `set::erase(key)`, with the number of elements removed. -/
def erase (s : OrdSet α) (a : α) : OrdSet α × Nat :=
  (⟨s.elems.erase a, s.sorted.sublist List.erase_sublist⟩, if a ∈ s.elems then 1 else 0)

/-- The elements before `lower_bound(a)`. -/
def below (s : OrdSet α) (a : α) : List α := s.elems.takeWhile (· < a)

/-- The elements from `lower_bound(a)` on. -/
def above (s : OrdSet α) (a : α) : OrdSet α :=
  ⟨s.elems.dropWhile (· < a), s.sorted.sublist (List.dropWhile_sublist _)⟩

theorem insert_new (h : a ∉ s) : (s.insert a).2 = true := by
  rw [mem_def] at h
  rw [insert, dif_neg h]

theorem perm_insert (h : a ∉ s) : (s.insert a).1.elems.Perm (a :: s.elems) := by
  rw [mem_def] at h
  rw [insert, dif_neg h]
  exact List.perm_orderedInsert (· ≤ ·) a s.elems

theorem mem_insert : x ∈ (s.insert a).1 ↔ x = a ∨ x ∈ s := by
  by_cases h : a ∈ s.elems
  · rw [insert, dif_pos h]
    constructor
    · exact Or.inr
    · rintro (rfl | hx)
      · exact h
      · exact hx
  · rw [mem_def, (perm_insert h).mem_iff, List.mem_cons]
    rfl

theorem size_insert (h : a ∉ s) : (s.insert a).1.size = s.size + 1 := (perm_insert h).length_eq

theorem erase_found (h : a ∈ s) : (s.erase a).2 = 1 := if_pos h

theorem perm_erase (h : a ∈ s) : s.elems.Perm (a :: (s.erase a).1.elems) :=
  List.perm_cons_erase h

theorem mem_erase : x ∈ (s.erase a).1 ↔ x ≠ a ∧ x ∈ s := s.nodup.mem_erase_iff

theorem size_erase (h : a ∈ s) : (s.erase a).1.size + 1 = s.size := (perm_erase h).length_eq.symm

theorem below_append_above (s : OrdSet α) (a : α) : s.below a ++ (s.above a).elems = s.elems :=
  List.takeWhile_append_dropWhile

theorem lt_of_mem_below (h : x ∈ s.below a) : x < a := by
  simpa using List.mem_takeWhile_imp h

theorem le_of_mem_dropWhile {l : List α} (hl : l.Pairwise (· < ·)) (h : x ∈ l.dropWhile (· < a)) :
    a ≤ x := by
  induction l with
  | nil => cases h
  | cons b l ih =>
    obtain ⟨hb, hl⟩ := List.pairwise_cons.1 hl
    by_cases hba : b < a
    · rw [List.dropWhile_cons_of_pos (by simpa using hba)] at h
      exact ih hl h
    · rw [List.dropWhile_cons_of_neg (by simpa using hba)] at h
      have hab : a ≤ b := not_lt.1 hba
      rcases List.mem_cons.1 h with rfl | hx
      · exact hab
      · exact hab.trans (hb x hx).le

theorem le_of_mem_above (h : x ∈ s.above a) : a ≤ x := le_of_mem_dropWhile s.sorted h

theorem begin?_mem (h : s.begin? = some a) : a ∈ s := List.mem_of_mem_head? h

theorem begin?_le (h : s.begin? = some a) (hx : x ∈ s) : a ≤ x := by
  obtain ⟨l, hl⟩ := List.head?_eq_some_iff.1 h
  have hs := s.sorted
  rw [hl] at hs
  rw [mem_def, hl] at hx
  rcases List.mem_cons.1 hx with rfl | hx
  · exact le_rfl
  · exact ((List.pairwise_cons.1 hs).1 x hx).le

theorem begin?_eq_none : s.begin? = none ↔ s.elems = [] := List.head?_eq_none_iff

end OrdSet

import Mathlib.Data.List.Basic

/-!
# Lib.CondVar

Condition variables of a monitor.

The threads of a monitor are a list of places: where thread `i` is, is the `i`-th entry, and a step
of it puts another place there. A `CondVar` says what the places mean to one condition variable:
the thread waits and was not notified, it is awake and will come back to test its condition, or it
has nothing to do with it.

* `Waiting` — where a thread is in a method that loops around `wait`.
* `Picks` / `notify` — a notification wakes one waiter of the environment's choice, and is lost
  only when nobody waits. A spurious wakeup is a `wake` nobody asked for.
* `Served n` — while somebody waits, at least `n` threads are awake. `n` is the number of things
  the threads wait for; nothing is then left lying while all who could take it sleep.
-/

inductive Standing where
  /-- Not concerned by the condition variable. -/
  | away
  /-- Notified, or on its way to the test of the condition. -/
  | awake
  /-- Waiting, and not notified. -/
  | waiting
  deriving DecidableEq, Repr

/-- Where a thread is in a method with a `while (...) wait();` loop. -/
inductive Waiting where
  /-- It was called, and has not had the mutex yet. -/
  | entering
  /-- In `wait`, not notified. -/
  | waiting
  /-- Notified or woken spuriously; it needs the mutex to return from `wait`. -/
  | woken
  deriving DecidableEq, Repr

namespace Waiting

def standing : Waiting → Standing
  | .waiting => .waiting
  | .entering | .woken => .awake

def wake : Waiting → Waiting
  | .waiting => .woken
  | w => w

theorem standing_wake {w : Waiting} (h : w.standing = .waiting) : w.wake.standing = .awake := by
  cases w with
  | waiting => rfl
  | entering | woken => cases h

end Waiting

/-- The places of a thread, as one condition variable sees them. -/
structure CondVar (α : Type) where
  standing : α → Standing
  /-- Where a waiting thread is once it is woken. -/
  wake : α → α
  standing_wake : ∀ a, standing a = .waiting → standing (wake a) = .awake

namespace CondVar

variable {α : Type}

/-- One thread moves: what every count of places does. -/
theorem countP_set_add {ts : List α} {i : Nat} {a : α} (h : ts[i]? = some a) (p : α → Bool)
    (b : α) : (ts.set i b).countP p + (p a).toNat = ts.countP p + (p b).toNat := by
  obtain ⟨hlt, rfl⟩ := List.getElem?_eq_some_iff.1 h
  have hpos : p ts[i] = true → 0 < ts.countP p := fun hp =>
    List.countP_pos_iff.2 ⟨_, List.getElem_mem hlt, hp⟩
  rw [List.countP_set hlt]
  cases ha : p ts[i] with
  | false => cases p b <;> simp
  | true =>
    have := hpos ha
    cases p b <;> simp <;> omega

theorem modify_eq_set_of_getElem? {ts : List α} {i : Nat} {a : α} (h : ts[i]? = some a)
    (f : α → α) : ts.modify i f = ts.set i (f a) := by
  rw [List.modify_eq_set_getElem?, h]
  rfl

variable (cv : CondVar α)

def waits (a : α) : Bool := cv.standing a == .waiting

def awake (a : α) : Bool := cv.standing a == .awake

/-- How many threads wait un-notified. -/
def waiting (ts : List α) : Nat := ts.countP cv.waits

/-- How many threads are awake or notified. -/
def up (ts : List α) : Nat := ts.countP cv.awake

/-- How many threads are concerned by the condition variable. -/
def present (ts : List α) : Nat := cv.waiting ts + cv.up ts

/-- `i` is whom a notification wakes. -/
def Picks (ts : List α) : Option Nat → Prop
  | none => cv.waiting ts = 0
  | some i => ts[i]?.any cv.waits = true

instance (ts : List α) : (i : Option Nat) → Decidable (cv.Picks ts i)
  | none => inferInstanceAs (Decidable (_ = 0))
  | some _ => inferInstanceAs (Decidable (_ = true))

/-- `pthread_cond_signal`. -/
def notify (ts : List α) : Option Nat → List α
  | none => ts
  | some i => ts.modify i cv.wake

/-- What a wakeup does not change. -/
theorem map_notify {β : Type} {f : α → β} (hf : ∀ a, f (cv.wake a) = f a) (ts : List α)
    (woken : Option Nat) : (cv.notify ts woken).map f = ts.map f := by
  cases woken with
  | none => rfl
  | some i =>
    refine List.ext_getElem? fun j => ?_
    rw [List.getElem?_map, List.getElem?_map, notify, List.getElem?_modify]
    cases ts[j]? with
    | none => rfl
    | some a =>
      simp only [Option.map_eq_map, Option.map_some, Option.some.injEq]
      split
      · exact hf a
      · rfl

/-- `pthread_cond_broadcast`. -/
def notifyAll (ts : List α) : List α := ts.map fun a => if cv.waits a then cv.wake a else a

/-- While somebody waits, `n` others are awake. -/
def Served (n : Nat) (ts : List α) : Prop := 0 < cv.waiting ts → n ≤ cv.up ts

/-- Who is woken at `cv` stands as before to `cv'`. -/
def Apart (cv' : CondVar α) : Prop :=
  ∀ a, cv.standing a = .waiting → cv'.standing (cv.wake a) = cv'.standing a

variable {cv} {ts : List α}

theorem picks_some {i : Nat} (h : cv.Picks ts (some i)) :
    ∃ a, ts[i]? = some a ∧ cv.standing a = .waiting := by
  rw [Picks, Option.any_eq_true] at h
  obtain ⟨a, ha, hw⟩ := h
  exact ⟨a, ha, eq_of_beq hw⟩

theorem exists_picks (cv : CondVar α) (ts : List α) : ∃ i, cv.Picks ts i := by
  by_cases h : cv.waiting ts = 0
  · exact ⟨none, h⟩
  · obtain ⟨a, ha, hw⟩ := List.countP_pos_iff.1 (Nat.pos_of_ne_zero h)
    obtain ⟨i, hi⟩ := List.getElem?_of_mem ha
    exact ⟨some i, by rw [Picks, hi]; exact hw⟩

theorem picks_of_waiting_eq_zero {i : Option Nat} (h0 : cv.waiting ts = 0) (h : cv.Picks ts i) :
    i = none := by
  cases i with
  | none => rfl
  | some i =>
    obtain ⟨a, ha, hw⟩ := picks_some h
    exact absurd (beq_iff_eq.2 hw) (List.countP_eq_zero.1 h0 a (List.mem_of_getElem? ha))

/-- A notification moves nobody who does not wait. -/
theorem getElem?_notify {i : Option Nat} (h : cv.Picks ts i) (j : Nat) :
    (cv.notify ts i)[j]? = ts[j]? ∨ ∃ a, ts[j]? = some a ∧ (cv.notify ts i)[j]? = some (cv.wake a) ∧
      cv.standing a = .waiting := by
  cases i with
  | none => exact Or.inl rfl
  | some i =>
    obtain ⟨a, ha, hw⟩ := picks_some h
    rw [notify, List.getElem?_modify]
    by_cases hij : i = j
    · subst hij
      exact Or.inr ⟨a, ha, by simp [ha], hw⟩
    · exact Or.inl (by simp [hij])

theorem waiting_notifyAll : cv.waiting (cv.notifyAll ts) = 0 := by
  rw [waiting, List.countP_eq_zero]
  intro b hb
  obtain ⟨a, _, rfl⟩ := List.mem_map.1 hb
  by_cases h : cv.waits a = true
  · rw [if_pos h, waits, cv.standing_wake a (eq_of_beq h)]
    decide
  · rw [if_neg h]
    exact h

theorem waiting_replicate (cv : CondVar α) {a : α} (h : cv.standing a ≠ .waiting) (n : Nat) :
    cv.waiting (List.replicate n a) = 0 := by
  rw [waiting, List.countP_eq_zero]
  intro b hb
  rw [List.eq_of_mem_replicate hb, waits, beq_iff_eq]
  exact h

/-- A thread that does not go to sleep adds no waiter. -/
theorem waiting_set_le {i : Nat} {a b : α} (hi : ts[i]? = some a) (hb : cv.standing b ≠ .waiting) :
    cv.waiting (ts.set i b) ≤ cv.waiting ts := by
  have h := countP_set_add hi cv.waits b
  have hb' : cv.waits b = false := beq_eq_false_iff_ne.2 hb
  rw [hb', Bool.toNat_false] at h
  simp only [waiting]
  omega

theorem length_notify (i : Option Nat) : (cv.notify ts i).length = ts.length := by
  cases i with
  | none => rfl
  | some i => exact List.length_modify ..

theorem waiting_notify_le {i : Option Nat} (h : cv.Picks ts i) :
    cv.waiting (cv.notify ts i) ≤ cv.waiting ts := by
  cases i with
  | none => exact Nat.le_refl _
  | some i =>
    obtain ⟨a, ha, hw⟩ := picks_some h
    rw [notify, modify_eq_set_of_getElem? ha]
    exact waiting_set_le ha (by rw [cv.standing_wake a hw]; decide)

theorem present_set (cv : CondVar α) {i : Nat} {a : α} (hi : ts[i]? = some a) (b : α) :
    cv.present (ts.set i b) + ((cv.waits a).toNat + (cv.awake a).toNat) =
      cv.present ts + ((cv.waits b).toNat + (cv.awake b).toNat) := by
  have hwaits := countP_set_add hi cv.waits b
  have hawake := countP_set_add hi cv.awake b
  simp only [present, waiting, up]
  omega

theorem present_notify {i : Option Nat} (h : cv.Picks ts i) :
    cv.present (cv.notify ts i) = cv.present ts := by
  cases i with
  | none => rfl
  | some i =>
    obtain ⟨a, ha, hw⟩ := picks_some h
    have hset := cv.present_set ha (cv.wake a)
    rw [waits, awake, hw, waits, awake, cv.standing_wake a hw] at hset
    rw [notify, modify_eq_set_of_getElem? ha]
    exact Nat.add_right_cancel hset

namespace Served

theorem of_waiting_eq_zero {n : Nat} (h : cv.waiting ts = 0) : cv.Served n ts :=
  fun hw => absurd h (Nat.ne_of_gt hw)

theorem zero : cv.Served 0 ts := fun _ => Nat.zero_le _

theorem mono {n m : Nat} (h : cv.Served n ts) (hm : m ≤ n) : cv.Served m ts :=
  fun hw => Nat.le_trans hm (h hw)

/-- A thread moves from `a` to `b` without going to sleep. -/
theorem set {n m i : Nat} {a b : α} (h : cv.Served n ts) (hi : ts[i]? = some a)
    (hb : cv.standing b ≠ .waiting) (hn : m + (cv.awake a).toNat ≤ n + (cv.awake b).toNat) :
    cv.Served m (ts.set i b) := by
  intro hw
  have hawake := countP_set_add hi cv.awake b
  have hserved := h (Nat.lt_of_lt_of_le hw (waiting_set_le hi hb))
  simp only [up] at hserved ⊢
  omega

/-- A notification pays for one more thing to take. -/
theorem notify {n : Nat} {i : Option Nat} (h : cv.Served n ts) (hi : cv.Picks ts i) :
    cv.Served (n + 1) (cv.notify ts i) := by
  cases i with
  | none =>
    intro hw
    exact absurd hi (Nat.ne_of_gt hw)
  | some i =>
    obtain ⟨a, ha, hwait⟩ := picks_some hi
    rw [CondVar.notify, modify_eq_set_of_getElem? ha]
    have hwake := cv.standing_wake a hwait
    refine h.set ha (by rw [hwake]; decide) ?_
    rw [awake, hwait, awake, hwake]
    exact Nat.le_refl _

/-- A notification of another condition variable. -/
theorem notify_apart {n : Nat} {cv' : CondVar α} {i : Option Nat} (h : cv'.Served n ts)
    (hap : cv.Apart cv') (hi : cv.Picks ts i) : cv'.Served n (cv.notify ts i) := by
  cases i with
  | none => exact h
  | some i =>
    obtain ⟨a, ha, hwait⟩ := picks_some hi
    have hwaits := countP_set_add ha cv'.waits (cv.wake a)
    have hawake := countP_set_add ha cv'.awake (cv.wake a)
    rw [show cv'.waits (cv.wake a) = cv'.waits a from congrArg (· == _) (hap a hwait)] at hwaits
    rw [show cv'.awake (cv.wake a) = cv'.awake a from congrArg (· == _) (hap a hwait)] at hawake
    rw [CondVar.notify, modify_eq_set_of_getElem? ha]
    intro hw
    simp only [Served, waiting, up] at h hw ⊢
    omega

end Served
end CondVar

import TinyMuduo.Lib.Monitor

/-!
# Lib.Ledger

What the calls of a monitor have asked for, and what has been entered into the shared data.

A `Ledger` says how much is entered in the data and how much a thread at a place still has to enter,
in any commutative monoid: numbers, or multisets of elements. `Balances` is one condition for each
instruction, and `run_total` says that then nothing is lost and nothing is entered twice: what is
entered and what is owed is at any time what the calls have asked for.
-/

namespace Monitor

open Result

variable {σ ρ π κ M : Type}

/-- Where the thread is, or goes on when it is woken. -/
def Thread.spot (t : Thread ρ π κ) : π :=
  match t.place with
  | .running p | .waiting _ p | .woken _ p => p

theorem Thread.spot_wake (t : Thread ρ π κ) : t.wake.spot = t.spot := by
  obtain ⟨place, r⟩ := t
  cases place <;> rfl

theorem Woken.map_spot {ts ts' : List (Thread ρ π κ)} (h : Woken ts ts') :
    ts'.map Thread.spot = ts.map Thread.spot := by
  refine List.ext_getElem? fun j => ?_
  rw [List.getElem?_map, List.getElem?_map]
  exact h.getElem?_map Thread.spot_wake j

/-- The shared data after the instruction. -/
def Instr.after (s : σ) (r : ρ) : Instr σ ρ π κ → σ
  | .act f _ => (f s r).1
  | _ => s

theorem run_shared [DecidableEq κ] {s s' : State σ ρ π κ} {i : Nat} {t : Thread ρ π κ}
    {woken : Option Nat} {c : Instr σ ρ π κ} (hx : run s i t woken c = .ok s') :
    s'.shared = c.after s.shared t.reg := by
  cases c with
  | unlock next | wait c next =>
    obtain ⟨-, -, hx⟩ := bind_eq_ok hx
    cases hx
    rfl
  | _ =>
    cases hx
    rfl

/-- The data change by an action of a thread, or not at all. -/
theorem exec_shared [DecidableEq κ] {P : Program σ ρ π κ} {s s' : State σ ρ π κ} {op : Op ρ π}
    (hx : exec P s op = .ok s') : s'.shared = s.shared ∨
      ∃ (i : Nat) (p : π) (r : ρ), s.threads[i]? = some ⟨.running p, r⟩ ∧
        s'.shared = (P.code p).after s.shared r := by
  cases op with
  | call i p r | wake i =>
    cases hx
    exact .inl rfl
  | step i woken =>
    simp only [exec] at hx
    cases ht : s.threads[i]? with
    | none =>
      rw [ht] at hx
      cases hx
      exact .inl rfl
    | some t =>
      obtain ⟨place, r⟩ := t
      rw [ht] at hx
      cases place with
      | running p => exact .inr ⟨i, p, r, ht, run_shared hx⟩
      | woken c next =>
        cases hx
        exact .inl rfl
      | waiting c next =>
        cases hx
        exact .inl rfl

structure Ledger (σ π M : Type) where
  entered : σ → M
  /-- What a thread at a place has not entered yet. -/
  owes : π → M

namespace Ledger

variable [AddCommMonoid M] (L : Ledger σ π M)

def owed (ts : List (Thread ρ π κ)) : M := ((ts.map Thread.spot).map L.owes).sum

/-- What a call asks for. -/
def claimed : Op ρ π → M
  | .call _ p _ => L.owes p
  | .step _ _ | .wake _ => 0

def total (s : State σ ρ π κ) : M := L.entered s.shared + L.owed s.threads

/-- The condition of the instruction at `p`. -/
def Balances (s : σ) (r : ρ) (p : π) : Instr σ ρ π κ → Prop
  | .idle => L.owes p = 0
  | .lock next | .unlock next | .assign next | .unassign next | .wait _ next | .notify _ next
  | .notifyAll _ next => L.owes next = L.owes p
  | .act f next => L.entered (f s r).1 + L.owes next = L.entered s + L.owes p
  | .test _ yes no => L.owes yes = L.owes p ∧ L.owes no = L.owes p

variable {L} {P : Program σ ρ π κ} {s s' : State σ ρ π κ}

theorem Balances.land {shared : σ} {r : ρ} {p : π} {c : Instr σ ρ π κ}
    (h : L.Balances shared r p c) (hc : c ≠ .idle) :
    L.entered (c.after shared r) + L.owes (Monitor.land shared ⟨.running p, r⟩ c).spot =
      L.entered shared + L.owes p := by
  cases c with
  | idle => exact absurd rfl hc
  | act f next => exact h
  | test q yes no =>
    simp only [Monitor.land, Thread.goto, Thread.spot, Instr.after]
    split
    · rw [h.1]
    · rw [h.2]
  | _ => exact congrArg (L.entered shared + ·) h

theorem owed_set {ts : List (Thread ρ π κ)} {i : Nat} {t : Thread ρ π κ} (ht : ts[i]? = some t)
    (t' : Thread ρ π κ) : L.owed (ts.set i t') + L.owes t.spot = L.owed ts + L.owes t'.spot := by
  rw [owed, owed, List.map_set]
  exact List.sum_map_set (by rw [List.getElem?_map, ht]; rfl) rfl rfl

theorem owed_woken {ts ts' : List (Thread ρ π κ)} (h : Woken ts ts') : L.owed ts' = L.owed ts := by
  rw [owed, owed, h.map_spot]

variable [DecidableEq κ]

/-- A step adds what it asks for. -/
theorem exec_total [IsRightCancelAdd M] {op : Op ρ π} (he : Enabled P s op)
    (hx : exec P s op = .ok s')
    (hbal : ∀ (i : Nat) p r, s.threads[i]? = some ⟨.running p, r⟩ →
      L.Balances s.shared r p (P.code p)) :
    L.total s' = L.total s + L.claimed op := by
  cases op with
  | call i p r =>
    obtain ⟨-, ⟨place, reg⟩, ht, hidle⟩ := he
    obtain ⟨q, rfl, hq⟩ := Owned.isIdle_running hidle
    have hbalance := hbal i q reg ht
    rw [hq] at hbalance
    have hzero : L.owes (Thread.mk (.running q) reg : Thread ρ π κ).spot = 0 := hbalance
    have hset := owed_set (L := L) ht ⟨.running p, r⟩
    rw [hzero, add_zero] at hset
    cases hx
    rw [total, total, add_assoc]
    exact congrArg (L.entered s.shared + ·) hset
  | wake i =>
    cases hx
    rw [claimed, add_zero]
    exact congrArg (L.entered s.shared + ·) (owed_woken (.modify s.threads i))
  | step i woken =>
    rw [claimed, add_zero]
    obtain ⟨c, next, r, ht, -, rfl⟩ | ⟨p, r, ht, hne, -, hx⟩ := step_cases he hx
    · have hset := owed_set (L := L) ht ⟨.running next, r⟩
      exact congrArg (L.entered s.shared + ·) (add_right_cancel hset)
    · have hland := (hbal i p r ht).land hne
      have hset := owed_set (L := L) ht (Monitor.land s.shared ⟨.running p, r⟩ (P.code p))
      refine add_right_cancel (b := L.owes p) ?_
      calc L.total s' + L.owes p
          = L.entered ((P.code p).after s.shared r) + (L.owed s.threads +
              L.owes (Monitor.land s.shared ⟨.running p, r⟩ (P.code p)).spot) := by
            rw [total, run_shared hx, owed_woken (run_threads hne hx), add_assoc]
            exact congrArg (_ + ·) hset
        _ = L.total s + L.owes p := by
            rw [add_left_comm, hland, ← add_assoc, add_comm (L.owed s.threads)]
            rfl

/-- The rule for a whole run, under an invariant of the monitor. -/
theorem run_total [IsRightCancelAdd M] {I : State σ ρ π κ → Prop} (hI : (machine P).Keeps I)
    (hbal : ∀ s, I s → ∀ (i : Nat) p r, s.threads[i]? = some ⟨.running p, r⟩ →
      L.Balances s.shared r p (P.code p)) {ops : List (Op ρ π)}
    (hr : (machine P).Run s ops s') (hs : I s) :
    L.total s' = L.total s + (ops.map L.claimed).sum := by
  induction hr with
  | nil => rw [List.map_nil, List.sum_nil, add_zero]
  | cons he hx _ ih =>
    rw [ih (hI _ _ _ hs he hx), exec_total he hx (hbal _ hs), List.map_cons, List.sum_cons,
      add_assoc]

end Ledger

end Monitor

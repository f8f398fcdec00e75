import TinyMuduo.Lib.CondVar
import TinyMuduo.Lib.Machine
import TinyMuduo.Lib.Result
import TinyMuduo.Lib.Total

/-!
# Lib.Monitor

Threads that run code with a mutex and condition variables, one instruction at a time.

* `Instr` — what one instruction does: locking and unlocking, an action on the shared data, a test,
  `wait`, `notify` and `notifyAll`. `assign` and `unassign` write a field of the mutex that the code
  itself keeps, to know who has locked it.
* `machine` — any number of threads under any interleaving. `wait` gives the mutex back and sleeps
  in one step; a thread that is woken, by a notification or spuriously, needs the mutex to go on.
* `Discipline` — at which places the mutex is held. It is checked instruction by instruction, and
  then at most one thread is at such a place, the field names it (`Owned`), and while somebody has
  something to do a step can be made (`Owned.stuck`).
-/

namespace Monitor

open Result

variable {σ ρ π κ : Type}

/-- Instructions on shared data `σ` and a thread's own data `ρ`, between places `π`. -/
inductive Instr (σ ρ π κ : Type) where
  /-- The thread is outside, and may make a call. -/
  | idle
  | lock (next : π)
  | unlock (next : π)
  | assign (next : π)
  | unassign (next : π)
  | act (f : σ → ρ → σ × ρ) (next : π)
  | test (p : σ → ρ → Bool) (yes no : π)
  | wait (c : κ) (next : π)
  | notify (c : κ) (next : π)
  | notifyAll (c : κ) (next : π)

inductive Place (π κ : Type) where
  | running (p : π)
  /-- In `wait`, not notified. -/
  | waiting (c : κ) (next : π)
  /-- Notified or woken spuriously; it needs the mutex to return from `wait`. -/
  | woken (c : κ) (next : π)
  deriving DecidableEq

structure Thread (ρ π κ : Type) where
  place : Place π κ
  reg : ρ
  deriving DecidableEq

def Thread.goto (t : Thread ρ π κ) (p : π) : Thread ρ π κ := { t with place := .running p }

def Thread.wake (t : Thread ρ π κ) : Thread ρ π κ :=
  match t.place with
  | .waiting c next => { t with place := .woken c next }
  | .running _ | .woken _ _ => t

/-- The threads, as condition variable `c` sees them. Threads that it has woken are awake, and so
are those at the places that are `counted`. -/
def cond [DecidableEq κ] (counted : π → Bool) (c : κ) : CondVar (Thread ρ π κ) where
  standing t :=
    match t.place with
    | .waiting c' _ => if c' = c then .waiting else .away
    | .woken c' _ => if c' = c then .awake else .away
    | .running p => if counted p then .awake else .away
  wake := Thread.wake
  standing_wake t h := by
    obtain ⟨place, reg⟩ := t
    cases place with
    | waiting c' next =>
      have hc : c' = c := by
        by_contra hne
        simp [hne] at h
      simp [Thread.wake, hc]
    | running p | woken c' next =>
      simp only at h
      split at h <;> cases h

structure State (σ ρ π κ : Type) where
  shared : σ
  /-- Who has locked the mutex. -/
  owner : Option Nat
  /-- Who has locked it according to its field. -/
  holder : Option Nat
  threads : List (Thread ρ π κ)

structure Program (σ ρ π κ : Type) where
  code : π → Instr σ ρ π κ
  /-- The calls that threads make: where they start, and with what. -/
  entry : π → ρ → Bool

inductive Op (ρ π : Type) where
  | call (i : Nat) (p : π) (r : ρ)
  /-- The next instruction of thread `i`; if it is `notify`, it wakes `woken`. -/
  | step (i : Nat) (woken : Option Nat)
  /-- Thread `i` returns from `wait` without a notification. -/
  | wake (i : Nat)

def Op.isCall : Op ρ π → Bool
  | .call _ _ _ => true
  | .step _ _ | .wake _ => false

def Op.isStep : Op ρ π → Bool
  | .step _ _ => true
  | .call _ _ _ | .wake _ => false

inductive Fault where
  /-- A thread gives back a mutex that it has not locked. -/
  | notOwner (i : Nat)
  deriving DecidableEq, Repr

/-- Thread `i` moves. -/
def State.move (s : State σ ρ π κ) (i : Nat) (t : Thread ρ π κ) : State σ ρ π κ :=
  { s with threads := s.threads.set i t }

section Machine

variable [DecidableEq κ]

/-- Where the instruction takes the thread. -/
def land (shared : σ) (t : Thread ρ π κ) : Instr σ ρ π κ → Thread ρ π κ
  | .idle => t
  | .lock next | .unlock next | .assign next | .unassign next | .notify _ next
  | .notifyAll _ next => t.goto next
  | .act f next => ⟨.running next, (f shared t.reg).2⟩
  | .test p yes no => t.goto (if p shared t.reg then yes else no)
  | .wait c next => { t with place := .waiting c next }

def run (s : State σ ρ π κ) (i : Nat) (t : Thread ρ π κ) (woken : Option Nat) :
    Instr σ ρ π κ → Except Fault (State σ ρ π κ)
  | .idle => .ok s
  | .lock next => .ok { s.move i (t.goto next) with owner := some i }
  | .unlock next => do
    ensure (s.owner = some i) (.notOwner i)
    .ok { s.move i (t.goto next) with owner := none }
  | .assign next => .ok { s.move i (t.goto next) with holder := some i }
  | .unassign next => .ok { s.move i (t.goto next) with holder := none }
  | .act f next =>
    let r := f s.shared t.reg
    .ok { s.move i ⟨.running next, r.2⟩ with shared := r.1 }
  | .test p yes no => .ok (s.move i (t.goto (if p s.shared t.reg then yes else no)))
  | .wait c next => do
    ensure (s.owner = some i) (.notOwner i)
    .ok { s.move i { t with place := .waiting c next } with owner := none }
  | .notify c next =>
    .ok { s with threads := (cond (fun _ => false) c).notify (s.threads.set i (t.goto next)) woken }
  | .notifyAll c next =>
    .ok { s with threads := (cond (fun _ => false) c).notifyAll (s.threads.set i (t.goto next)) }

def exec (P : Program σ ρ π κ) (s : State σ ρ π κ) :
    Op ρ π → Except Fault (State σ ρ π κ)
  | .call i p r => .ok (s.move i ⟨.running p, r⟩)
  | .wake i => .ok { s with threads := s.threads.modify i Thread.wake }
  | .step i woken =>
    match s.threads[i]? with
    | none => .ok s
    | some t =>
      match t.place with
      | .running p => run s i t woken (P.code p)
      | .woken _ next => .ok { s.move i (t.goto next) with owner := some i }
      | .waiting _ _ => .ok s

/-- The instruction can be executed. -/
def Ready (s : State σ ρ π κ) (i : Nat) (t : Thread ρ π κ) (woken : Option Nat) :
    Instr σ ρ π κ → Prop
  | .idle => False
  | .lock _ => s.owner = none
  | .notify c next => (cond (fun _ => false) c).Picks (s.threads.set i (t.goto next)) woken
  | .unlock _ | .assign _ | .unassign _ | .act _ _ | .test _ _ _ | .wait _ _ | .notifyAll _ _ =>
    True

def Thread.isIdle (P : Program σ ρ π κ) (t : Thread ρ π κ) : Bool :=
  match t.place with
  | .running p =>
    match P.code p with
    | .idle => true
    | _ => false
  | .waiting _ _ | .woken _ _ => false

def Thread.isWaiting (t : Thread ρ π κ) : Bool :=
  match t.place with
  | .waiting _ _ => true
  | .running _ | .woken _ _ => false

def CanStep (P : Program σ ρ π κ) (s : State σ ρ π κ) (i : Nat) (woken : Option Nat) :
    Thread ρ π κ → Prop
  | ⟨.running p, r⟩ => Ready s i ⟨.running p, r⟩ woken (P.code p)
  | ⟨.woken _ _, _⟩ => s.owner = none
  | ⟨.waiting _ _, _⟩ => False

def Enabled (P : Program σ ρ π κ) (s : State σ ρ π κ) : Op ρ π → Prop
  | .call i p r => P.entry p r = true ∧ ∃ t ∈ s.threads[i]?, t.isIdle P = true
  | .wake i => ∃ t ∈ s.threads[i]?, t.isWaiting = true
  | .step i woken => ∃ t ∈ s.threads[i]?, CanStep P s i woken t

instance (s : State σ ρ π κ) (i : Nat) (t : Thread ρ π κ) (woken : Option Nat) :
    (c : Instr σ ρ π κ) → Decidable (Ready s i t woken c)
  | .idle => isFalse id
  | .lock _ => inferInstanceAs (Decidable (_ = _))
  | .notify c next =>
    inferInstanceAs (Decidable ((cond _ c).Picks (s.threads.set i (t.goto next)) woken))
  | .unlock _ | .assign _ | .unassign _ | .act _ _ | .test _ _ _ | .wait _ _ | .notifyAll _ _ =>
    isTrue trivial

instance (P : Program σ ρ π κ) (s : State σ ρ π κ) (i : Nat) (woken : Option Nat) :
    (t : Thread ρ π κ) → Decidable (CanStep P s i woken t)
  | ⟨.running p, r⟩ => inferInstanceAs (Decidable (Ready s i ⟨.running p, r⟩ woken (P.code p)))
  | ⟨.woken _ _, _⟩ => inferInstanceAs (Decidable (_ = _))
  | ⟨.waiting _ _, _⟩ => isFalse id

instance (P : Program σ ρ π κ) (s : State σ ρ π κ) : (op : Op ρ π) → Decidable (Enabled P s op)
  | .call i _ _ =>
    inferInstanceAs (Decidable (_ ∧ ∃ t ∈ s.threads[i]?, t.isIdle P = true))
  | .wake i => inferInstanceAs (Decidable (∃ t ∈ s.threads[i]?, t.isWaiting = true))
  | .step i woken => inferInstanceAs (Decidable (∃ t ∈ s.threads[i]?, CanStep P s i woken t))

def machine (P : Program σ ρ π κ) : Machine (State σ ρ π κ) (Op ρ π) Fault where
  enabled := Enabled P
  exec := exec P

instance (P : Program σ ρ π κ) (s : State σ ρ π κ) (op : Op ρ π) :
    Decidable ((machine P).enabled s op) :=
  inferInstanceAs (Decidable (Enabled P s op))

end Machine

/-! ## The discipline -/

/-- The instruction at `p` keeps to what is said of the places. -/
def Respects (held assigned : π → Bool) (p : π) : Instr σ ρ π κ → Prop
  | .idle => held p = false ∧ assigned p = false
  | .lock next =>
    (held p = false ∧ assigned p = false) ∧ held next = true ∧ assigned next = false
  | .unlock next =>
    (held p = true ∧ assigned p = false) ∧ held next = false ∧ assigned next = false
  | .assign next =>
    (held p = true ∧ assigned p = false) ∧ held next = true ∧ assigned next = true
  | .unassign next =>
    (held p = true ∧ assigned p = true) ∧ held next = true ∧ assigned next = false
  | .act _ next | .notify _ next | .notifyAll _ next =>
    held p = true ∧ held next = true ∧ assigned next = assigned p
  | .test _ yes no => held p = true ∧ (held yes = true ∧ assigned yes = assigned p) ∧
    held no = true ∧ assigned no = assigned p
  | .wait _ next =>
    (held p = true ∧ assigned p = false) ∧ held next = true ∧ assigned next = false

structure Discipline (P : Program σ ρ π κ) where
  /-- The mutex is held at `p`. -/
  held : π → Bool
  /-- Its field names the thread at `p`. -/
  assigned : π → Bool
  respects : ∀ p, Respects held assigned p (P.code p)
  entries : ∀ p r, P.entry p r = true → held p = false ∧ assigned p = false

variable {P : Program σ ρ π κ} (d : Discipline P)

def Discipline.holds (t : Thread ρ π κ) : Bool :=
  match t.place with
  | .running p => d.held p
  | .waiting _ _ | .woken _ _ => false

def Discipline.assigns (t : Thread ρ π κ) : Bool :=
  match t.place with
  | .running p => d.assigned p
  | .waiting _ _ | .woken _ _ => false

/-- A thread that waits, or was woken, is in a `wait` of the program. -/
def Resumes (P : Program σ ρ π κ) (t : Thread ρ π κ) : Prop :=
  match t.place with
  | .running _ => True
  | .waiting c next | .woken c next => ∃ p, P.code p = .wait c next

structure Owned (s : State σ ρ π κ) : Prop where
  owner : ∀ i, s.owner = some i ↔ ∃ t ∈ s.threads[i]?, d.holds t = true
  holder : ∀ i, s.holder = some i ↔ ∃ t ∈ s.threads[i]?, d.assigns t = true
  resumes : ∀ t ∈ s.threads, Resumes P t

variable {d} {s : State σ ρ π κ} {i : Nat} {t t' : Thread ρ π κ}

@[simp] theorem Discipline.holds_running (p : π) (r : ρ) :
    d.holds ⟨.running p, r⟩ = d.held p := rfl

@[simp] theorem Discipline.assigns_running (p : π) (r : ρ) :
    d.assigns ⟨.running p, r⟩ = d.assigned p := rfl

@[simp] theorem Discipline.holds_goto (t : Thread ρ π κ) (p : π) :
    d.holds (t.goto p) = d.held p := rfl

@[simp] theorem Discipline.assigns_goto (t : Thread ρ π κ) (p : π) :
    d.assigns (t.goto p) = d.assigned p := rfl

theorem Discipline.wake_eq (t : Thread ρ π κ) :
    d.holds t.wake = d.holds t ∧ d.assigns t.wake = d.assigns t ∧
      (Resumes P t → Resumes P t.wake) := by
  obtain ⟨place, reg⟩ := t
  cases place with
  | running p | waiting c next | woken c next => exact ⟨rfl, rfl, id⟩

/-- Threads are woken, and nothing else happens. -/
def Woken (ts ts' : List (Thread ρ π κ)) : Prop :=
  ∀ j : Nat, ts'[j]? = ts[j]? ∨ ts'[j]? = (ts[j]?).map Thread.wake

theorem Woken.modify (ts : List (Thread ρ π κ)) (i : Nat) : Woken ts (ts.modify i Thread.wake) := by
  intro j
  rw [List.getElem?_modify]
  split
  · exact .inr rfl
  · exact .inl (by simp)

theorem Woken.notify [DecidableEq κ] (counted : π → Bool) (c : κ) (ts : List (Thread ρ π κ))
    (woken : Option Nat) : Woken ts ((cond counted c).notify ts woken) := by
  cases woken with
  | none => exact fun j => .inl rfl
  | some i => exact .modify ts i

theorem Woken.notifyAll [DecidableEq κ] (counted : π → Bool) (c : κ) (ts : List (Thread ρ π κ)) :
    Woken ts ((cond counted c).notifyAll ts) := by
  intro j
  rw [CondVar.notifyAll, List.getElem?_map]
  cases ts[j]? with
  | none => exact .inl rfl
  | some t =>
    rw [Option.map_some]
    split
    · exact .inr rfl
    · exact .inl rfl

/-- What wakeups do not change. -/
theorem Woken.getElem?_map {β : Type} {ts ts' : List (Thread ρ π κ)} (h : Woken ts ts')
    {f : Thread ρ π κ → β} (hf : ∀ t, f t.wake = f t) (j : Nat) :
    (ts'[j]?).map f = (ts[j]?).map f := by
  rcases h j with heq | heq
  · rw [heq]
  · rw [heq, Option.map_map]
    congr 1
    funext t
    exact hf t

theorem Woken.running {ts ts' : List (Thread ρ π κ)} (h : Woken ts ts') {p : π} {r : ρ}
    (ht : ts[i]? = some ⟨.running p, r⟩) : ts'[i]? = some ⟨.running p, r⟩ := by
  rcases h i with heq | heq
  · rw [heq, ht]
  · rw [heq, ht]
    rfl

/-- The ways in which a thread can go on. -/
theorem step_cases [DecidableEq κ] {s' : State σ ρ π κ} {woken : Option Nat}
    (he : Enabled P s (.step i woken)) (hx : exec P s (.step i woken) = .ok s') :
    (∃ c next r, s.threads[i]? = some ⟨.woken c next, r⟩ ∧ s.owner = none ∧
      s' = { s.move i ⟨.running next, r⟩ with owner := some i }) ∨
    ∃ p r, s.threads[i]? = some ⟨.running p, r⟩ ∧ P.code p ≠ .idle ∧
      Ready s i ⟨.running p, r⟩ woken (P.code p) ∧
      run s i ⟨.running p, r⟩ woken (P.code p) = .ok s' := by
  obtain ⟨⟨place, r⟩, ht, hready⟩ := he
  have ht' : s.threads[i]? = some ⟨place, r⟩ := ht
  simp only [exec, ht'] at hx
  cases place with
  | waiting c next => cases hready
  | woken c next =>
    cases hx
    exact .inl ⟨c, next, r, ht, hready, rfl⟩
  | running p =>
    refine .inr ⟨p, r, ht, fun hc => ?_, hready, hx⟩
    simp only [CanStep, hc, Ready] at hready

/-! ## A measure of the threads -/

/-- A measure that no wakeup raises. -/
theorem Woken.sum_le {ts ts' : List (Thread ρ π κ)} (h : Woken ts ts') {f : Thread ρ π κ → Nat}
    (hf : ∀ t, f t.wake ≤ f t) : (ts'.map f).sum ≤ (ts.map f).sum := by
  induction ts generalizing ts' with
  | nil =>
    have hnil : ts' = [] := by
      rcases h 0 with heq | heq <;> simpa using heq
    simp [hnil]
  | cons t ts ih =>
    cases ts' with
    | nil =>
      rcases h 0 with heq | heq <;> cases heq
    | cons t' ts' =>
      have htail := ih fun j => h (j + 1)
      have hhead : f t' ≤ f t := by
        rcases h 0 with heq | heq
        · cases heq
          exact Nat.le_refl _
        · cases heq
          exact hf t
      simp only [List.map_cons, List.sum_cons]
      omega

theorem run_threads [DecidableEq κ] {s' : State σ ρ π κ} {woken : Option Nat} {c : Instr σ ρ π κ}
    (hc : c ≠ .idle) (hx : run s i t woken c = .ok s') :
    Woken (s.threads.set i (land s.shared t c)) s'.threads := by
  cases c with
  | idle => exact absurd rfl hc
  | unlock next | wait c next =>
    obtain ⟨-, -, hx⟩ := bind_eq_ok hx
    cases hx
    exact fun j => .inl rfl
  | notify c next =>
    cases hx
    exact .notify _ c _ woken
  | notifyAll c next =>
    cases hx
    exact .notifyAll _ c _
  | lock next | assign next | unassign next | act f next | test p yes no =>
    cases hx
    exact fun j => .inl rfl

theorem notify_sum_le [DecidableEq κ] (counted : π → Bool) (c : κ) (ts : List (Thread ρ π κ))
    (woken : Option Nat) {f : Thread ρ π κ → Nat} {m : Nat} (hf : ∀ t, f t.wake ≤ f t + m) :
    (((cond counted c).notify ts woken).map f).sum ≤ (ts.map f).sum + m := by
  cases woken with
  | none => exact Nat.le_add_right _ _
  | some i =>
    show ((ts.modify i Thread.wake).map f).sum ≤ _
    cases ht : ts[i]? with
    | none =>
      rw [List.modify_eq_self (List.getElem?_eq_none_iff.1 ht)]
      exact Nat.le_add_right _ _
    | some t =>
      rw [CondVar.modify_eq_set_of_getElem? ht]
      have hset := List.sum_map_set (f := f) (b := t.wake) ht rfl rfl
      have hle := hf t
      omega

/-- What a notification may add to the measure, if a wakeup adds `m`. -/
def Instr.gift (m : Nat) : Instr σ ρ π κ → Nat
  | .notify _ _ => m
  | _ => 0

/-- An instruction that takes its thread down takes all threads down. -/
theorem run_sum_lt [DecidableEq κ] {s' : State σ ρ π κ} {woken : Option Nat} {c : Instr σ ρ π κ}
    (hc : c ≠ .idle) (hx : run s i t woken c = .ok s') (ht : s.threads[i]? = some t)
    {f : Thread ρ π κ → Nat} {m : Nat} (hf : ∀ t, f t.wake ≤ f t + m)
    (hall : m = 0 ∨ ∀ k next, c ≠ .notifyAll k next)
    (hlt : f (land s.shared t c) + c.gift m < f t) :
    (s'.threads.map f).sum < (s.threads.map f).sum := by
  have hset := List.sum_map_set (f := f) (b := land s.shared t c) ht rfl rfl
  have hle :
      (s'.threads.map f).sum ≤ ((s.threads.set i (land s.shared t c)).map f).sum + c.gift m := by
    rcases hall with rfl | hall
    · exact Nat.le_trans ((run_threads hc hx).sum_le hf) (Nat.le_add_right _ _)
    · cases c with
      | idle => exact absurd rfl hc
      | notifyAll k next => exact absurd rfl (hall k next)
      | notify k next =>
        cases hx
        exact notify_sum_le _ k _ woken hf
      | unlock next | wait k next =>
        obtain ⟨-, -, hx⟩ := bind_eq_ok hx
        cases hx
        exact Nat.le_refl _
      | lock next | assign next | unassign next | act g next | test p yes no =>
        cases hx
        exact Nat.le_refl _
  omega

/-- If nobody makes a call, each step takes all threads down when it takes down its own. -/
theorem exec_sum_lt [DecidableEq κ] {s' : State σ ρ π κ} {op : Op ρ π} (hop : op.isCall = false)
    (he : Enabled P s op) (hx : exec P s op = .ok s') {f : Thread ρ π κ → Nat} {m : Nat}
    (hrun : ∀ (i : Nat) p r, s.threads[i]? = some ⟨.running p, r⟩ → P.code p ≠ .idle →
      f (land s.shared ⟨.running p, r⟩ (P.code p)) + (P.code p).gift m < f ⟨.running p, r⟩)
    (hwoken : ∀ c next r, ⟨.woken c next, r⟩ ∈ s.threads →
      f ⟨.running next, r⟩ < f ⟨.woken c next, r⟩)
    (hwaiting : ∀ c next r, f ⟨.woken c next, r⟩ ≤ f ⟨.waiting c next, r⟩ + m)
    (hwake : ∀ i, op = .wake i → ∀ c next r, f ⟨.woken c next, r⟩ < f ⟨.waiting c next, r⟩)
    (hall : m = 0 ∨ ∀ p k next, P.code p ≠ .notifyAll k next) :
    (s'.threads.map f).sum < (s.threads.map f).sum := by
  cases op with
  | call i p r => cases hop
  | wake i =>
    obtain ⟨⟨place, r⟩, ht, hwaits⟩ := he
    cases hx
    cases place with
    | running p => cases hwaits
    | woken c next => cases hwaits
    | waiting c next =>
      have hset := List.sum_map_set (f := f) (b := ⟨.woken c next, r⟩) ht rfl rfl
      have hlt := hwake i rfl c next r
      rw [CondVar.modify_eq_set_of_getElem? ht]
      simp only [Thread.wake]
      omega
  | step i woken =>
    obtain ⟨c, next, r, ht, -, rfl⟩ | ⟨p, r, ht, hne, -, hx⟩ := step_cases he hx
    · have hset := List.sum_map_set (f := f) (b := ⟨.running next, r⟩) ht rfl rfl
      have hlt := hwoken c next r (List.mem_of_getElem? ht)
      simp only [State.move]
      omega
    · refine run_sum_lt hne hx ht (fun t => ?_) (hall.imp_right fun h => h p) (hrun i p r ht hne)
      obtain ⟨place, r⟩ := t
      cases place with
      | waiting c next => exact hwaiting c next r
      | running p => exact Nat.le_add_right _ _
      | woken c next => exact Nat.le_add_right _ _

namespace Owned

theorem owner_iff (h : Owned d s) (ht : s.threads[i]? = some t) :
    s.owner = some i ↔ d.holds t = true := by
  rw [h.owner i, ht]
  simp

theorem holder_iff (h : Owned d s) (ht : s.threads[i]? = some t) :
    s.holder = some i ↔ d.assigns t = true := by
  rw [h.holder i, ht]
  simp

/-- The threads change, and each holds what it held. -/
theorem congr (h : Owned d s) {ts : List (Thread ρ π κ)}
    (hholds : ∀ j : Nat, (ts[j]?).map d.holds = (s.threads[j]?).map d.holds)
    (hassigns : ∀ j : Nat, (ts[j]?).map d.assigns = (s.threads[j]?).map d.assigns)
    (hres : ∀ t ∈ ts, Resumes P t) (shared : σ) :
    Owned d { s with shared := shared, threads := ts } := by
  have hex : ∀ (f : Thread ρ π κ → Bool) (o : Option (Thread ρ π κ)),
      (∃ t ∈ o, f t = true) ↔ o.map f = some true := by
    intro f o
    cases o <;> simp
  refine ⟨fun j => ?_, fun j => ?_, hres⟩
  · rw [hex, hholds, ← hex]
    exact h.owner j
  · rw [hex, hassigns, ← hex]
    exact h.holder j

theorem woken (h : Owned d s) {ts : List (Thread ρ π κ)} (hw : Woken s.threads ts) :
    Owned d { s with threads := ts } := by
  refine h.congr (hw.getElem?_map fun t => (d.wake_eq t).1)
    (hw.getElem?_map fun t => (d.wake_eq t).2.1) (fun t ht => ?_) s.shared
  obtain ⟨j, hj⟩ := List.getElem?_of_mem ht
  rcases hw j with heq | heq
  · exact h.resumes t (List.mem_of_getElem? (heq ▸ hj))
  · rw [heq] at hj
    obtain ⟨t₀, ht₀, rfl⟩ := Option.map_eq_some_iff.1 hj
    exact (d.wake_eq t₀).2.2 (h.resumes t₀ (List.mem_of_getElem? ht₀))

theorem resumes_set (h : Owned d s) (hres : Resumes P t') :
    ∀ t ∈ s.threads.set i t', Resumes P t := by
  intro t ht
  rcases List.mem_or_eq_of_mem_set ht with hold | rfl
  · exact h.resumes t hold
  · exact hres

/-- A thread moves, and holds what it held. -/
theorem set (h : Owned d s) (ht : s.threads[i]? = some t) (t' : Thread ρ π κ)
    (hholds : d.holds t' = d.holds t)
    (hassigns : d.assigns t' = d.assigns t) (hres : Resumes P t') (shared : σ) :
    Owned d { s with shared := shared, threads := s.threads.set i t' } := by
  have hlt := (List.getElem?_eq_some_iff.1 ht).1
  refine h.congr (fun j => ?_) (fun j => ?_) (h.resumes_set hres) shared
  · by_cases hij : i = j
    · subst hij
      rw [List.getElem?_set_self hlt, ht, Option.map_some, Option.map_some, hholds]
    · rw [List.getElem?_set_ne hij]
  · by_cases hij : i = j
    · subst hij
      rw [List.getElem?_set_self hlt, ht, Option.map_some, Option.map_some, hassigns]
    · rw [List.getElem?_set_ne hij]

/-- A thread moves that holds the mutex, or takes it while nobody does. -/
theorem move (h : Owned d s) (ht : s.threads[i]? = some t) (ho : s.owner = none ∨ s.owner = some i)
    (hh : s.holder = none ∨ s.holder = some i) (hres : Resumes P t') {owner holder : Option Nat}
    (ho' : owner = if d.holds t' then some i else none)
    (hh' : holder = if d.assigns t' then some i else none) (shared : σ) :
    Owned d ⟨shared, owner, holder, s.threads.set i t'⟩ := by
  have hlt := (List.getElem?_eq_some_iff.1 ht).1
  refine ⟨fun j => ?_, fun j => ?_, h.resumes_set hres⟩
  · by_cases hij : i = j
    · subst hij
      rw [ho', List.getElem?_set_self hlt]
      cases hd : d.holds t' <;> simp [hd]
    · rw [ho', List.getElem?_set_ne hij, ← h.owner j]
      rcases ho with ho | ho <;> rw [ho] <;> cases d.holds t' <;> simp [hij]
  · by_cases hij : i = j
    · subst hij
      rw [hh', List.getElem?_set_self hlt]
      cases hd : d.assigns t' <;> simp [hd]
    · rw [hh', List.getElem?_set_ne hij, ← h.holder j]
      rcases hh with hh | hh <;> rw [hh] <;> cases d.assigns t' <;> simp [hij]

/-- The field names only a thread that holds the mutex. -/
theorem holds_of_assigns (d : Discipline P) {t : Thread ρ π κ} (h : d.assigns t = true) :
    d.holds t = true := by
  obtain ⟨place, reg⟩ := t
  cases place with
  | waiting c next | woken c next => cases h
  | running p =>
    have hr := d.respects p
    have ha : d.assigned p = true := h
    show d.held p = true
    cases hc : P.code p <;> rw [hc] at hr <;> simp_all [Respects]

theorem owner_of_holder (h : Owned d s) (hh : s.holder = some i) : s.owner = some i := by
  obtain ⟨t, ht, ha⟩ := (h.holder i).1 hh
  exact (h.owner i).2 ⟨t, ht, holds_of_assigns d ha⟩

theorem holder_eq_none (h : Owned d s) (ho : s.owner = none) : s.holder = none := by
  cases hh : s.holder with
  | none => rfl
  | some i => cases ho.symm.trans (h.owner_of_holder hh)

theorem holder_eq (h : Owned d s) (ht : s.threads[i]? = some t) (ho : s.owner = some i) :
    s.holder = if d.assigns t then some i else none := by
  cases hh : s.holder with
  | none =>
    split
    next ha => cases hh.symm.trans ((h.holder_iff ht).2 ha)
    next => rfl
  | some j =>
    cases (h.owner_of_holder hh).symm.trans ho
    rw [if_pos ((h.holder_iff ht).1 hh)]

theorem holder_or (h : Owned d s) (ho : s.owner = some i) :
    s.holder = none ∨ s.holder = some i := by
  cases hh : s.holder with
  | none => exact .inl rfl
  | some j => exact .inr ((h.owner_of_holder hh).symm.trans ho)

theorem isIdle_running {t : Thread ρ π κ} (h : t.isIdle P = true) :
    ∃ p, t.place = .running p ∧ P.code p = .idle := by
  unfold Thread.isIdle at h
  split at h
  next p hp =>
    split at h
    next hc => exact ⟨p, hp, hc⟩
    next => cases h
  next => cases h
  next => cases h

/-- Nobody has made a call yet. -/
theorem of_idle (d : Discipline P) (ho : s.owner = none) (hh : s.holder = none)
    (hidle : ∀ t ∈ s.threads, t.isIdle P = true) : Owned d s := by
  have hout : ∀ t ∈ s.threads, d.holds t = false ∧ d.assigns t = false ∧ Resumes P t := by
    rintro ⟨place, r⟩ ht
    obtain ⟨p, rfl, hc⟩ := isIdle_running (hidle _ ht)
    have hr := d.respects p
    rw [hc] at hr
    exact ⟨hr.1, hr.2, trivial⟩
  refine ⟨fun i => ?_, fun i => ?_, fun t ht => (hout t ht).2.2⟩
  · rw [ho]
    refine ⟨fun h => (by cases h), fun ⟨t, ht, hold⟩ => ?_⟩
    cases (hout t (List.mem_of_getElem? ht)).1.symm.trans hold
  · rw [hh]
    refine ⟨fun h => (by cases h), fun ⟨t, ht, hold⟩ => ?_⟩
    cases (hout t (List.mem_of_getElem? ht)).2.1.symm.trans hold

section Machine

variable [DecidableEq κ]

/-- One instruction keeps the discipline, and gives back no mutex that is not locked. -/
theorem run (h : Owned d s) {p : π} {r : ρ} {woken : Option Nat}
    (ht : s.threads[i]? = some ⟨.running p, r⟩)
    (hready : Ready s i ⟨.running p, r⟩ woken (P.code p)) :
    ∃ s', run s i ⟨.running p, r⟩ woken (P.code p) = .ok s' ∧ Owned d s' := by
  have hr := d.respects p
  have hown : d.held p = true → s.owner = some i := (h.owner_iff ht).2
  cases hc : P.code p with
  | idle =>
    rw [hc] at hready
    cases hready
  | lock next =>
    rw [hc] at hr hready
    have ho : s.owner = none := hready
    have hh := h.holder_eq_none ho
    refine ⟨_, rfl, h.move ht (.inl ho) (.inl hh) ?_ ?_ ?_ _⟩
    · exact trivial
    · simp [hr.2.1]
    · simp [hr.2.2, State.move, hh]
  | unlock next =>
    rw [hc] at hr
    have ho := hown hr.1.1
    have hh := h.holder_eq ht ho
    refine ⟨_, by rw [Monitor.run, ensure_pos ho]; rfl,
      h.move ht (.inr ho) (h.holder_or ho) ?_ ?_ ?_ _⟩
    · exact trivial
    · simp [hr.2.1]
    · simp [hr.2.2, State.move, hh, hr.1.2]
  | assign next | unassign next =>
    rw [hc] at hr
    have ho := hown hr.1.1
    refine ⟨_, rfl, h.move ht (.inr ho) (h.holder_or ho) ?_ ?_ ?_ _⟩
    · exact trivial
    · simp [hr.2.1, State.move, ho]
    · simp [hr.2.2]
  | act f next =>
    rw [hc] at hr
    exact ⟨_, rfl, h.set ht ⟨.running next, _⟩ (hr.2.1.trans hr.1.symm) hr.2.2 trivial _⟩
  | test q yes no =>
    rw [hc] at hr
    refine ⟨_, rfl, ?_⟩
    split
    · exact h.set ht ⟨.running yes, r⟩ (hr.2.1.1.trans hr.1.symm) hr.2.1.2 trivial _
    · exact h.set ht ⟨.running no, r⟩ (hr.2.2.1.trans hr.1.symm) hr.2.2.2 trivial _
  | wait c next =>
    rw [hc] at hr
    have ho := hown hr.1.1
    have hh := h.holder_eq ht ho
    refine ⟨_, by rw [Monitor.run, ensure_pos ho]; rfl,
      h.move ht (.inr ho) (h.holder_or ho) ?_ ?_ ?_ _⟩
    · exact ⟨p, hc⟩
    · rfl
    · simp [State.move, hh, hr.1.2, Discipline.assigns]
  | notify c next =>
    rw [hc] at hr
    have hset := h.set ht ⟨.running next, r⟩ (hr.2.1.trans hr.1.symm) hr.2.2 trivial s.shared
    exact ⟨_, rfl, hset.woken (.notify _ c _ woken)⟩
  | notifyAll c next =>
    rw [hc] at hr
    have hset := h.set ht ⟨.running next, r⟩ (hr.2.1.trans hr.1.symm) hr.2.2 trivial s.shared
    exact ⟨_, rfl, hset.woken (.notifyAll _ c _)⟩

theorem safe (d : Discipline P) : Machine.Safe (machine P) (Owned d) := by
  intro s op h he
  cases op with
  | call i p r =>
    obtain ⟨hentry, ⟨place, reg⟩, ht, hidle⟩ := he
    obtain ⟨q, rfl, hc⟩ := isIdle_running hidle
    have hr := d.respects q
    rw [hc] at hr
    obtain ⟨hheld, hassigned⟩ := d.entries p r hentry
    exact ⟨_, rfl, h.set ht ⟨.running p, r⟩ (hheld.trans hr.1.symm) (hassigned.trans hr.2.symm)
      trivial _⟩
  | wake i => exact ⟨_, rfl, h.woken (.modify s.threads i)⟩
  | step i woken =>
    obtain ⟨⟨place, reg⟩, ht, hready⟩ := he
    have ht' : s.threads[i]? = some ⟨place, reg⟩ := ht
    cases place with
    | running p =>
      obtain ⟨s', hx, hs'⟩ := h.run ht' hready
      refine ⟨s', ?_, hs'⟩
      simp only [machine, exec, ht']
      exact hx
    | woken c next =>
      have ho : s.owner = none := hready
      have hh := h.holder_eq_none ho
      obtain ⟨q, hq⟩ : ∃ q, P.code q = .wait c next := h.resumes _ (List.mem_of_getElem? ht')
      have hres := d.respects q
      rw [hq] at hres
      refine ⟨{ s.move i ⟨.running next, reg⟩ with owner := some i }, ?_, ?_⟩
      · simp only [machine, exec, ht']
        rfl
      refine h.move ht' (.inl ho) (.inl hh) ?_ ?_ ?_ _
      · exact trivial
      · simp [hres.2.1]
      · simp [hres.2.2, State.move, hh]
    | waiting c next => cases hready

/-- When no thread can make a step, each is outside or waits. -/
theorem stuck (h : Owned d s) (hstuck : ∀ i woken, ¬ Enabled P s (.step i woken)) :
    s.owner = none ∧ ∀ t ∈ s.threads, t.isIdle P = true ∨ t.isWaiting = true := by
  -- a thread that holds the mutex can always go on, and others wait for nothing but the mutex
  have hrun : ∀ (i : Nat) p r, s.threads[i]? = some ⟨.running p, r⟩ →
      s.owner = none ∨ d.held p = true → P.code p = .idle := by
    intro i p r ht hcan
    by_contra hne
    obtain ⟨woken, hready⟩ : ∃ woken, Ready s i ⟨.running p, r⟩ woken (P.code p) := by
      cases hc : P.code p with
      | idle => exact absurd hc hne
      | lock next =>
        have hr := d.respects p
        rw [hc] at hr
        rcases hcan with ho | hheld
        · exact ⟨none, ho⟩
        · cases hr.1.1.symm.trans hheld
      | notify c next => exact CondVar.exists_picks ..
      | _ => exact ⟨none, trivial⟩
    exact hstuck i woken ⟨_, ht, hready⟩
  have hfree : s.owner = none := by
    cases ho : s.owner with
    | none => rfl
    | some i =>
      obtain ⟨⟨place, r⟩, ht, hheld⟩ := (h.owner i).1 ho
      cases place with
      | running p =>
        have hidle := hrun i p r ht (.inr hheld)
        have hr := d.respects p
        rw [hidle] at hr
        cases hr.1.symm.trans hheld
      | waiting c next => cases hheld
      | woken c next => cases hheld
  refine ⟨hfree, fun t ht => ?_⟩
  obtain ⟨i, hi⟩ := List.getElem?_of_mem ht
  obtain ⟨place, r⟩ := t
  cases place with
  | running p => exact .inl (by simp [Thread.isIdle, hrun i p r hi (.inl hfree)])
  | waiting c next => exact .inr rfl
  | woken c next => exact absurd ⟨_, hi, hfree⟩ (hstuck i none)

end Machine

end Owned

end Monitor

import TinyMuduo.Lib.Monitor

/-!
# Lib.Outline

Proof outlines for monitors.

An `Outline` gives an invariant of the shared data, to hold whenever the mutex is free, and an
assertion for each place where a thread holds it. Besides the data both may speak of the `Crowd`:
how many threads wait at each condition variable, and how many are awake. A thread may be woken or
make a call at any time, so they must not depend on that (`Calmer`). `Valid` is one condition for
each instruction, and `Valid.keeps` says that an outline that meets them is true in every run.
-/

namespace Monitor

open Result

variable {σ ρ π κ : Type}

/-- How many threads wait at each condition variable, and how many are awake. -/
structure Crowd (κ : Type) where
  waiting : κ → Nat
  up : κ → Nat

namespace Crowd

/-- Fewer wait, and more are awake. -/
def Calmer (x x' : Crowd κ) : Prop := ∀ c, x'.waiting c ≤ x.waiting c ∧ x.up c ≤ x'.up c

variable (counted : κ → π → Bool)

/-- A thread goes from `p` to `next`. -/
def Moves (x : Crowd κ) (p next : π) (x' : Crowd κ) : Prop :=
  ∀ c, x'.waiting c = x.waiting c ∧
    x'.up c + (counted c p).toNat = x.up c + (counted c next).toNat

variable [DecidableEq κ]

/-- A thread at `p` goes to sleep at `c`. -/
def Sleeps (x : Crowd κ) (p : π) (c : κ) (x' : Crowd κ) : Prop :=
  ∀ c', x'.waiting c' = x.waiting c' + (if c = c' then 1 else 0) ∧
    x'.up c' + (counted c' p).toNat = x.up c'

/-- A thread that was woken at `c` goes on at `next`. -/
def Resumes (x : Crowd κ) (c : κ) (next : π) (x' : Crowd κ) : Prop :=
  ∀ c', x'.waiting c' = x.waiting c' ∧
    x'.up c' + (if c = c' then 1 else 0) = x.up c' + (counted c' next).toNat

omit [DecidableEq κ] in
/-- A thread that waits at `c` is woken, if there is one. -/
def Notified (x : Crowd κ) (c : κ) (x' : Crowd κ) : Prop :=
  (∀ c', c' ≠ c → x'.waiting c' = x.waiting c' ∧ x'.up c' = x.up c') ∧
    (x.waiting c = 0 ∧ x'.waiting c = 0 ∧ x'.up c = x.up c ∨
      x'.waiting c + 1 = x.waiting c ∧ x'.up c = x.up c + 1)

omit [DecidableEq κ] in
theorem Notified.calmer {x x' : Crowd κ} {c : κ} (h : x.Notified c x') : x.Calmer x' := by
  intro c'
  by_cases hc : c' = c
  · subst hc
    rcases h.2 with ⟨h0, h1, h2⟩ | ⟨h1, h2⟩
    · omega
    · omega
  · obtain ⟨hw, hu⟩ := h.1 c' hc
    omega

omit [DecidableEq κ] in
/-- All who wait at `c` are woken. -/
def AllNotified (x : Crowd κ) (c : κ) (x' : Crowd κ) : Prop :=
  (∀ c', c' ≠ c → x'.waiting c' = x.waiting c' ∧ x'.up c' = x.up c') ∧
    x'.waiting c = 0 ∧ x.up c ≤ x'.up c

end Crowd

section Count

variable [DecidableEq κ] {counted : κ → π → Bool} {ts : List (Thread ρ π κ)} {i : Nat}
  {t : Thread ρ π κ}

def crowd (counted : κ → π → Bool) (ts : List (Thread ρ π κ)) : Crowd κ where
  waiting c := (cond (counted c) c).waiting ts
  up c := (cond (counted c) c).up ts

@[simp] theorem waits_running (f : π → Bool) (c : κ) (p : π) (r : ρ) :
    (cond f c).waits ⟨.running p, r⟩ = false := by
  simp only [CondVar.waits, cond]
  split <;> rfl

@[simp] theorem waits_waiting (f : π → Bool) (c c' : κ) (p : π) (r : ρ) :
    (cond f c).waits ⟨.waiting c' p, r⟩ = decide (c' = c) := by
  simp only [CondVar.waits, cond]
  split <;> simp_all

@[simp] theorem waits_woken (f : π → Bool) (c c' : κ) (p : π) (r : ρ) :
    (cond f c).waits ⟨.woken c' p, r⟩ = false := by
  simp only [CondVar.waits, cond]
  split <;> rfl

@[simp] theorem awake_running (f : π → Bool) (c : κ) (p : π) (r : ρ) :
    (cond f c).awake ⟨.running p, r⟩ = f p := by
  simp only [CondVar.awake, cond]
  split <;> simp_all

@[simp] theorem awake_waiting (f : π → Bool) (c c' : κ) (p : π) (r : ρ) :
    (cond f c).awake ⟨.waiting c' p, r⟩ = false := by
  simp only [CondVar.awake, cond]
  split <;> rfl

@[simp] theorem awake_woken (f : π → Bool) (c c' : κ) (p : π) (r : ρ) :
    (cond f c).awake ⟨.woken c' p, r⟩ = decide (c' = c) := by
  simp only [CondVar.awake, cond]
  split <;> simp_all

@[simp] theorem wake_waiting (f : π → Bool) (c c' : κ) (p : π) (r : ρ) :
    (cond f c).wake ⟨.waiting c' p, r⟩ = ⟨.woken c' p, r⟩ := rfl

/-- Who waits does not depend on who is counted. -/
theorem waits_eq (f g : π → Bool) (c : κ) (t : Thread ρ π κ) :
    (cond f c).waits t = (cond g c).waits t := by
  obtain ⟨place, r⟩ := t
  cases place <;> simp

/-- One thread moves: what the counts do. -/
theorem crowd_set (counted : κ → π → Bool) (ht : ts[i]? = some t) (t' : Thread ρ π κ) (c : κ) :
    (crowd counted (ts.set i t')).waiting c + ((cond (counted c) c).waits t).toNat =
      (crowd counted ts).waiting c + ((cond (counted c) c).waits t').toNat ∧
    (crowd counted (ts.set i t')).up c + ((cond (counted c) c).awake t).toNat =
      (crowd counted ts).up c + ((cond (counted c) c).awake t').toNat :=
  ⟨CondVar.countP_set_add ht _ _, CondVar.countP_set_add ht _ _⟩

theorem crowd_moves {p : π} {r : ρ} (ht : ts[i]? = some ⟨.running p, r⟩) (next : π) (r' : ρ) :
    (crowd counted ts).Moves counted p next (crowd counted (ts.set i ⟨.running next, r'⟩)) := by
  intro c
  have h := crowd_set counted ht ⟨.running next, r'⟩ c
  simpa using h

theorem crowd_sleeps {p : π} {r : ρ} (ht : ts[i]? = some ⟨.running p, r⟩) (c : κ) (next : π) :
    (crowd counted ts).Sleeps counted p c (crowd counted (ts.set i ⟨.waiting c next, r⟩)) := by
  intro c'
  obtain ⟨hw, hu⟩ := crowd_set counted ht ⟨.waiting c next, r⟩ c'
  simp only [waits_running, waits_waiting, awake_running, awake_waiting, Bool.toNat_false,
    Nat.add_zero] at hw hu
  refine ⟨?_, hu⟩
  rw [hw]
  by_cases hc : c = c' <;> simp [hc]

theorem crowd_resumes {c : κ} {next : π} {r : ρ} (ht : ts[i]? = some ⟨.woken c next, r⟩) :
    (crowd counted ts).Resumes counted c next (crowd counted (ts.set i ⟨.running next, r⟩)) := by
  intro c'
  obtain ⟨hw, hu⟩ := crowd_set counted ht ⟨.running next, r⟩ c'
  simp only [waits_running, waits_woken, awake_running, awake_woken, Bool.toNat_false,
    Nat.add_zero] at hw hu
  refine ⟨hw, ?_⟩
  rw [← hu]
  by_cases hc : c = c' <;> simp [hc]

/-- A thread is woken that waits at `c`. -/
theorem crowd_wake {c : κ} {next : π} {r : ρ} (ht : ts[i]? = some ⟨.waiting c next, r⟩) :
    (crowd counted ts).Notified c (crowd counted (ts.modify i Thread.wake)) := by
  rw [CondVar.modify_eq_set_of_getElem? ht]
  have h := fun c' => crowd_set counted ht ⟨.woken c next, r⟩ c'
  simp only [waits_waiting, waits_woken, awake_waiting, awake_woken, Bool.toNat_false,
    Nat.add_zero] at h
  refine ⟨fun c' hne => ?_, .inr ?_⟩
  · have hc := h c'
    simp only [Ne.symm hne, decide_false, Bool.toNat_false, Nat.add_zero] at hc
    exact hc
  · have hc := h c
    simp only [decide_true, Bool.toNat_true] at hc
    exact hc

theorem picks_waiting {f : π → Bool} {c : κ} (h : (cond f c).Picks ts (some i)) :
    ∃ next r, ts[i]? = some ⟨.waiting c next, r⟩ := by
  obtain ⟨⟨place, r⟩, ht, hw⟩ := CondVar.picks_some h
  have hwaits : (cond f c).waits (⟨place, r⟩ : Thread ρ π κ) = true := beq_iff_eq.2 hw
  cases place with
  | waiting c' next =>
    rw [waits_waiting] at hwaits
    obtain rfl := of_decide_eq_true hwaits
    exact ⟨next, r, ht⟩
  | running p | woken c' next => simp at hwaits

theorem waiting_eq (f g : π → Bool) (c : κ) (ts : List (Thread ρ π κ)) :
    (cond f c).waiting ts = (cond g c).waiting ts :=
  congrArg (List.countP · ts) (funext (waits_eq f g c))

theorem crowd_notify {f : π → Bool} {c : κ} {woken : Option Nat} (h : (cond f c).Picks ts woken) :
    (crowd counted ts).Notified c (crowd counted ((cond f c).notify ts woken)) := by
  cases woken with
  | none =>
    have h0 : (crowd counted ts).waiting c = 0 := (waiting_eq _ f c ts).trans h
    exact ⟨fun _ _ => ⟨rfl, rfl⟩, .inl ⟨h0, h0, rfl⟩⟩
  | some i =>
    obtain ⟨next, r, ht⟩ := picks_waiting h
    exact crowd_wake ht

theorem crowd_notifyAll (f : π → Bool) (c : κ) :
    (crowd counted ts).AllNotified c (crowd counted ((cond f c).notifyAll ts)) := by
  refine ⟨fun c' hne => ⟨?_, ?_⟩, ?_, ?_⟩
  · show List.countP _ (List.map _ ts) = List.countP _ ts
    rw [List.countP_map]
    congr 1
    funext ⟨place, r⟩
    cases place with
    | running p | woken c'' next => simp
    | waiting c'' next =>
      by_cases hc : c'' = c
      · simp [hc, Ne.symm hne]
      · simp [hc]
  · show List.countP _ (List.map _ ts) = List.countP _ ts
    rw [List.countP_map]
    congr 1
    funext ⟨place, r⟩
    cases place with
    | running p | woken c'' next => simp
    | waiting c'' next =>
      by_cases hc : c'' = c
      · simp [hc, Ne.symm hne]
      · simp [hc]
  · exact (waiting_eq _ f c _).trans CondVar.waiting_notifyAll
  · show List.countP _ ts ≤ List.countP _ (List.map _ ts)
    rw [List.countP_map]
    refine List.countP_mono_left fun ⟨place, r⟩ _ hup => ?_
    cases place with
    | running p | woken c' next => simpa using hup
    | waiting c' next => simp at hup

end Count

/-! ## Outlines -/

structure Outline (σ ρ π κ : Type) where
  /-- The places at which a thread counts as awake at a condition variable. -/
  counted : κ → π → Bool
  inv : σ → Crowd κ → Prop
  assertion : π → σ → Crowd κ → ρ → Prop

section Machine

variable [DecidableEq κ]

/-- The condition of the instruction at `p`. -/
def Outline.Condition (o : Outline σ ρ π κ) (p : π) : Instr σ ρ π κ → Prop
  | .idle => ∀ c, o.counted c p = false
  | .lock next => ∀ s r x x', o.inv s x → x.Moves o.counted p next x' → o.assertion next s x' r
  | .unlock next => ∀ s r x x', o.assertion p s x r → x.Moves o.counted p next x' → o.inv s x'
  | .assign next | .unassign next =>
    ∀ s r x x', o.assertion p s x r → x.Moves o.counted p next x' → o.assertion next s x' r
  | .act f next => ∀ s r x x', o.assertion p s x r → x.Moves o.counted p next x' →
    o.assertion next (f s r).1 x' (f s r).2
  | .test q yes no => ∀ s r x x', o.assertion p s x r →
    (q s r = true → x.Moves o.counted p yes x' → o.assertion yes s x' r) ∧
    (q s r = false → x.Moves o.counted p no x' → o.assertion no s x' r)
  | .wait c next =>
    (∀ s r x x', o.assertion p s x r → x.Sleeps o.counted p c x' → o.inv s x') ∧
    ∀ s r x x', o.inv s x → x.Resumes o.counted c next x' → o.assertion next s x' r
  | .notify c next => ∀ s r x x' x'', o.assertion p s x r → x.Moves o.counted p next x' →
    x'.Notified c x'' → o.assertion next s x'' r
  | .notifyAll c next => ∀ s r x x' x'', o.assertion p s x r → x.Moves o.counted p next x' →
    x'.AllNotified c x'' → o.assertion next s x'' r

structure Outline.Valid (o : Outline σ ρ π κ) {P : Program σ ρ π κ} (d : Discipline P) : Prop where
  inv_calmer : ∀ s x x', o.inv s x → x.Calmer x' → o.inv s x'
  assertion_calmer : ∀ p s x x' r, o.assertion p s x r → x.Calmer x' → o.assertion p s x' r
  condition : ∀ p, o.Condition p (P.code p)

/-- The outline is true now. -/
structure Outline.Holds (o : Outline σ ρ π κ) {P : Program σ ρ π κ} (d : Discipline P)
    (s : State σ ρ π κ) : Prop where
  owned : Owned d s
  inv : s.owner = none → o.inv s.shared (crowd o.counted s.threads)
  assertion : ∀ i p r, s.owner = some i → s.threads[i]? = some ⟨.running p, r⟩ →
    o.assertion p s.shared (crowd o.counted s.threads) r

namespace Outline

variable {o : Outline σ ρ π κ} {P : Program σ ρ π κ} {d : Discipline P} {s : State σ ρ π κ}

namespace Holds

variable {s' : State σ ρ π κ} {i : Nat} {p next : π} {r : ρ}

/-- Thread `i` has the mutex. -/
theorem of_inside (howned : Owned d s) (ho : s.owner = some i)
    (ht : s.threads[i]? = some ⟨.running p, r⟩)
    (ha : o.assertion p s.shared (crowd o.counted s.threads) r) : o.Holds d s where
  owned := howned
  inv := fun hn => by cases ho.symm.trans hn
  assertion := fun j q r' hj ht' => by
    cases ho.symm.trans hj
    cases ht.symm.trans ht'
    exact ha

theorem of_free (howned : Owned d s) (ho : s.owner = none)
    (hinv : o.inv s.shared (crowd o.counted s.threads)) : o.Holds d s where
  owned := howned
  inv := fun _ => hinv
  assertion := fun j q r' hj => by cases ho.symm.trans hj

/-- Others are woken or make a call. -/
theorem calm (h : o.Holds d s) (hv : o.Valid d) {ts : List (Thread ρ π κ)}
    (howned : Owned d { s with threads := ts })
    (hcalm : (crowd o.counted s.threads).Calmer (crowd o.counted ts))
    (hsame : ∀ j, s.owner = some j → ts[j]? = s.threads[j]?) :
    o.Holds d { s with threads := ts } where
  owned := howned
  inv := fun hn => hv.inv_calmer _ _ _ (h.inv hn) hcalm
  assertion := fun j q r' hj ht => by
    refine hv.assertion_calmer _ _ _ _ _ (h.assertion j q r' hj ?_) hcalm
    rw [← hsame j hj]
    exact ht

/-- One instruction keeps the outline. -/
theorem run (h : o.Holds d s) (hv : o.Valid d) {woken : Option Nat}
    (ht : s.threads[i]? = some ⟨.running p, r⟩)
    (hready : Ready s i ⟨.running p, r⟩ woken (P.code p))
    (hx : Monitor.run s i ⟨.running p, r⟩ woken (P.code p) = .ok s') (howned : Owned d s') :
    o.Holds d s' := by
  have hr := d.respects p
  have hcond := hv.condition p
  have hlt := (List.getElem?_eq_some_iff.1 ht).1
  have hown : d.held p = true → s.owner = some i := (h.owned.owner_iff ht).2
  have hself : ∀ t' : Thread ρ π κ, (s.threads.set i t')[i]? = some t' := fun _ =>
    List.getElem?_set_self hlt
  cases hc : P.code p with
  | idle =>
    rw [hc] at hready
    cases hready
  | lock next =>
    rw [hc] at hcond hready hx
    cases hx
    exact .of_inside howned rfl (hself _)
      (hcond _ _ _ _ (h.inv hready) (crowd_moves ht next r))
  | unlock next =>
    rw [hc] at hcond hx hr
    obtain ⟨-, -, hx⟩ := bind_eq_ok hx
    cases hx
    exact .of_free howned rfl
      (hcond _ _ _ _ (h.assertion i p r (hown hr.1.1) ht) (crowd_moves ht next r))
  | assign next =>
    rw [hc] at hcond hx hr
    cases hx
    have ho := hown hr.1.1
    exact .of_inside howned ho (hself _)
      (hcond _ _ _ _ (h.assertion i p r ho ht) (crowd_moves ht next r))
  | unassign next =>
    rw [hc] at hcond hx hr
    cases hx
    have ho := hown hr.1.1
    exact .of_inside howned ho (hself _)
      (hcond _ _ _ _ (h.assertion i p r ho ht) (crowd_moves ht next r))
  | act f next =>
    rw [hc] at hcond hx hr
    cases hx
    have ho := hown hr.1
    exact .of_inside howned ho (hself _)
      (hcond _ _ _ _ (h.assertion i p r ho ht) (crowd_moves ht next _))
  | test q yes no =>
    rw [hc] at hcond hx hr
    cases hx
    have ho := hown hr.1
    have ha := h.assertion i p r ho ht
    split at howned
    next hq =>
      rw [if_pos hq]
      exact .of_inside howned ho (hself _)
        ((hcond _ _ _ _ ha).1 hq (crowd_moves ht yes r))
    next hq =>
      rw [if_neg hq]
      exact .of_inside howned ho (hself _)
        ((hcond _ _ _ _ ha).2 (Bool.not_eq_true _ ▸ hq) (crowd_moves ht no r))
  | wait c next =>
    rw [hc] at hcond hx hr
    obtain ⟨-, -, hx⟩ := bind_eq_ok hx
    cases hx
    exact .of_free howned rfl
      (hcond.1 _ _ _ _ (h.assertion i p r (hown hr.1.1) ht) (crowd_sleeps ht c next))
  | notify c next =>
    rw [hc] at hcond hx hr hready
    cases hx
    have ho := hown hr.1
    exact .of_inside howned ho ((Woken.notify _ c _ woken).running (hself _))
      (hcond _ _ _ _ _ (h.assertion i p r ho ht) (crowd_moves ht next r) (crowd_notify hready))
  | notifyAll c next =>
    rw [hc] at hcond hx hr
    cases hx
    have ho := hown hr.1
    exact .of_inside howned ho ((Woken.notifyAll _ c _).running (hself _))
      (hcond _ _ _ _ _ (h.assertion i p r ho ht) (crowd_moves ht next r) (crowd_notifyAll _ c))

end Holds

/-- An outline that meets its conditions stays true. -/
theorem Valid.keeps (hv : o.Valid d) : (machine P).Keeps (o.Holds d) := by
  intro s op s' h he hx
  have howned := (Owned.safe d).keeps s op s' h.owned he hx
  cases op with
  | call i p r =>
    obtain ⟨-, ⟨place, reg⟩, ht, hidle⟩ := he
    obtain ⟨q, rfl, hc⟩ := Owned.isIdle_running hidle
    cases hx
    have hcond := hv.condition q
    rw [hc] at hcond
    have hr := d.respects q
    rw [hc] at hr
    refine h.calm hv howned (fun c => ?_) fun j hj => ?_
    · have hmoves : (crowd o.counted s.threads).Moves o.counted q p _ := crowd_moves ht p r
      obtain ⟨hw, hu⟩ := hmoves c
      rw [hcond c] at hu
      simp only [Bool.toNat_false] at hu
      omega
    · refine List.getElem?_set_ne fun hij => ?_
      subst hij
      cases hr.1.symm.trans ((h.owned.owner_iff ht).1 hj)
  | wake i =>
    obtain ⟨⟨place, reg⟩, ht, hwaiting⟩ := he
    cases hx
    cases place with
    | waiting c next =>
      refine h.calm hv howned (crowd_wake ht).calmer fun j hj => ?_
      rw [List.getElem?_modify]
      split
      next hij =>
        subst hij
        cases (h.owned.owner_iff ht).1 hj
      next => simp
    | running p => cases hwaiting
    | woken c next => cases hwaiting
  | step i woken =>
    obtain ⟨c, next, r, ht, ho, rfl⟩ | ⟨p, r, ht, -, hready, hx⟩ := step_cases he hx
    · obtain ⟨q, hq⟩ : ∃ q, P.code q = .wait c next :=
        h.owned.resumes _ (List.mem_of_getElem? ht)
      have hcond := hv.condition q
      rw [hq] at hcond
      have hlt := (List.getElem?_eq_some_iff.1 ht).1
      exact .of_inside howned rfl (List.getElem?_set_self hlt)
        (hcond.2 _ _ _ _ (h.inv ho) (crowd_resumes ht))
    · exact h.run hv ht hready hx howned

/-- What the invariant and every assertion say of the data is always true. -/
theorem Holds.always (h : o.Holds d s) {Q : σ → Prop} (hinv : ∀ s x, o.inv s x → Q s)
    (hassertion : ∀ p s x r, o.assertion p s x r → Q s) : Q s.shared := by
  cases ho : s.owner with
  | none => exact hinv _ _ (h.inv ho)
  | some i =>
    obtain ⟨⟨place, r⟩, ht, hheld⟩ := (h.owned.owner i).1 ho
    cases place with
    | running p => exact hassertion p _ _ r (h.assertion i p r ho ht)
    | waiting c next => cases hheld
    | woken c next => cases hheld

/-- When no thread can make a step, nobody is awake, and each thread is outside or waits. -/
theorem Holds.stuck (h : o.Holds d s) (hv : o.Valid d)
    (hstuck : ∀ i woken, ¬ Enabled P s (.step i woken)) :
    ∃ x : Crowd κ, o.inv s.shared x ∧ (∀ c, x.up c = 0) ∧
      ∀ t ∈ s.threads, t.isIdle P = true ∨ t.isWaiting = true ∧ ∃ c, 0 < x.waiting c := by
  obtain ⟨ho, hall⟩ := h.owned.stuck hstuck
  refine ⟨_, h.inv ho, fun c => List.countP_eq_zero.2 ?_, ?_⟩
  · rintro ⟨place, r⟩ ht
    rcases hall _ ht with hidle | hwaiting
    · obtain ⟨p, rfl, hc⟩ := Owned.isIdle_running hidle
      have hcond := hv.condition p
      rw [hc] at hcond
      simp [hcond c]
    · cases place with
      | waiting c' next => simp
      | running p | woken c' next => cases hwaiting
  · rintro ⟨place, r⟩ ht
    rcases hall _ ht with hidle | hwaiting
    · exact .inl hidle
    · cases place with
      | waiting c next =>
        exact .inr ⟨rfl, c, List.countP_pos_iff.2 ⟨_, ht, by simp⟩⟩
      | running p | woken c next => cases hwaiting

end Outline

end Machine

end Monitor

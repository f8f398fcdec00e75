import Mathlib.Data.List.Basic

/-!
# Lib.Machine

Executable step functions in an environment.

* `Machine` — `enabled` says which labels the environment may offer in a state, `exec` what the
  code does with one: the next state, or the fault it runs into.
* `Run m s as s'` — the labels `as`, each enabled when it is offered, take `s` to `s'`.
* `Keeps m I` / `Safe m I` — one step from `I` stays in `I`; in `Safe` it also has no fault.
  `Run.keeps` and `Safe.run` carry this to whole runs; `Run.length_add_rank_le` bounds their
  length.
* `Machine.under P` — the same machine, restricted to steps that meet `P`.
* `replay` — runs a list of labels when `enabled` is decidable; `Run.of_replay` reads a concrete
  run off its result.
-/

structure Machine (σ α ε : Type) where
  enabled : σ → α → Prop
  exec : σ → α → Except ε σ

namespace Machine

variable {σ α ε : Type}

inductive Run (m : Machine σ α ε) : σ → List α → σ → Prop where
  | nil {s : σ} : Run m s [] s
  | cons {s s' s'' : σ} {a : α} {as : List α} :
      m.enabled s a → m.exec s a = .ok s' → Run m s' as s'' → Run m s (a :: as) s''

variable {m : Machine σ α ε}

namespace Run

theorem single {s s' : σ} {a : α} (he : m.enabled s a)
    (hx : m.exec s a = .ok s') : Run m s [a] s' := .cons he hx .nil

theorem trans {s s' s'' : σ} {as bs : List α} (h₁ : Run m s as s')
    (h₂ : Run m s' bs s'') : Run m s (as ++ bs) s'' := by
  induction h₁ with
  | nil => exact h₂
  | cons he hx _ ih => exact .cons he hx (ih h₂)

theorem snoc {s s' s'' : σ} {as : List α} {a : α} (h : Run m s as s')
    (he : m.enabled s' a) (hx : m.exec s' a = .ok s'') : Run m s (as ++ [a]) s'' :=
  h.trans (single he hx)

end Run

/-- One step from `I` stays in `I`. -/
def Keeps (m : Machine σ α ε) (I : σ → Prop) : Prop :=
  ∀ s a s', I s → m.enabled s a → m.exec s a = .ok s' → I s'

theorem Run.keeps {I : σ → Prop} (hI : Keeps m I) {s s' : σ} {as : List α}
    (h : Run m s as s') (hs : I s) : I s' := by
  induction h with
  | nil => exact hs
  | cons he hx _ ih => exact ih (hI _ _ _ hs he hx)

/-- The rule for an invariant that speaks of the labels taken so far. -/
theorem Run.keeps_trace {I : List α → σ → Prop}
    (hI : ∀ as s a s', I as s → m.enabled s a → m.exec s a = .ok s' → I (as ++ [a]) s')
    {s s' : σ} {as bs : List α} (h : Run m s as s') (hs : I bs s) : I (bs ++ as) s' := by
  induction h generalizing bs with
  | nil => rw [List.append_nil]; exact hs
  | cons he hx _ ih =>
    have := ih (hI _ _ _ _ hs he hx)
    rwa [List.append_assoc] at this

/-- One step from `I` has no fault and stays in `I`. -/
def Safe (m : Machine σ α ε) (I : σ → Prop) : Prop :=
  ∀ s a, I s → m.enabled s a → ∃ s', m.exec s a = .ok s' ∧ I s'

theorem Safe.keeps {I : σ → Prop} (h : Safe m I) : Keeps m I := by
  intro s a s' hs he hx
  obtain ⟨s₁, hx₁, hs₁⟩ := h s a hs he
  rw [hx] at hx₁; cases hx₁
  exact hs₁

/-- A run from `I` ends in `I`, and whatever is offered next is executed without a fault. -/
theorem Safe.run {I : σ → Prop} (h : Safe m I) {s s' : σ} {as : List α}
    (hr : Run m s as s') (hs : I s) :
    I s' ∧ ∀ a, m.enabled s' a → ∃ s'', m.exec s' a = .ok s'' := by
  have hs' : I s' := hr.keeps h.keeps hs
  refine ⟨hs', fun a he => ?_⟩
  obtain ⟨s'', hx, _⟩ := h s' a hs' he
  exact ⟨s'', hx⟩

/-- The rule for the length of a run: each step from `I` lowers `rank`. -/
theorem Run.length_add_rank_le {I : σ → Prop} {rank : σ → Nat} (hI : Keeps m I)
    (hlt : ∀ s a s', I s → m.enabled s a → m.exec s a = .ok s' → rank s' < rank s) {s s' : σ}
    {as : List α} (h : Run m s as s') (hs : I s) : as.length + rank s' ≤ rank s := by
  induction h with
  | nil => simp
  | cons he hx _ ih =>
    have h₁ := ih (hI _ _ _ hs he hx)
    have h₂ := hlt _ _ _ hs he hx
    simp only [List.length_cons]
    omega

/-- The machine restricted to steps that meet `P`. -/
def under (m : Machine σ α ε) (P : σ → α → Prop) : Machine σ α ε where
  enabled s a := m.enabled s a ∧ P s a
  exec := m.exec

theorem Run.under_mono {P Q : σ → α → Prop} (hPQ : ∀ s a, P s a → Q s a)
    {s s' : σ} {as : List α} (h : Run (m.under P) s as s') : Run (m.under Q) s as s' := by
  induction h with
  | nil => exact .nil
  | cons he hx _ ih => exact .cons ⟨he.1, hPQ _ _ he.2⟩ hx ih

theorem Run.of_under {P : σ → α → Prop} {s s' : σ} {as : List α}
    (h : Run (m.under P) s as s') : Run m s as s' := by
  induction h with
  | nil => exact .nil
  | cons he hx _ ih => exact .cons he.1 hx ih

theorem Run.under_of_forall {P : α → Prop} {s s' : σ} {as : List α}
    (h : Run m s as s') (hP : ∀ a ∈ as, P a) : Run (m.under fun _ => P) s as s' := by
  induction h with
  | nil => exact .nil
  | cons he hx _ ih =>
    exact .cons ⟨he, hP _ List.mem_cons_self⟩ hx (ih fun a ha => hP a (List.mem_cons_of_mem _ ha))

instance (m : Machine σ α ε) (P : σ → α → Prop) (s : σ) (a : α) [Decidable (m.enabled s a)]
    [Decidable (P s a)] : Decidable ((m.under P).enabled s a) :=
  inferInstanceAs (Decidable (_ ∧ _))

def replay (m : Machine σ α ε) [∀ s a, Decidable (m.enabled s a)] (s : σ) : List α → Option σ
  | [] => some s
  | a :: as =>
    if m.enabled s a then
      match m.exec s a with
      | .ok s' => replay m s' as
      | .error _ => none
    else none

theorem Run.of_replay_eq [∀ s a, Decidable (m.enabled s a)] {s s' : σ}
    {as : List α} (h : m.replay s as = some s') : Run m s as s' := by
  induction as generalizing s with
  | nil => cases h; exact .nil
  | cons a as ih =>
    rw [replay] at h
    split at h
    next he =>
      cases hx : m.exec s a with
      | ok s₁ => rw [hx] at h; exact .cons he hx (ih h)
      | error e => rw [hx] at h; cases h
    next => cases h

/-- A run with a given observation at its end, found by replaying its labels. -/
theorem Run.of_replay {β : Type} (m : Machine σ α ε) [∀ s a, Decidable (m.enabled s a)] (s : σ)
    (as : List α) (obs : σ → β) (v : β) (h : (m.replay s as).map obs = some v) :
    ∃ s', Run m s as s' ∧ obs s' = v := by
  obtain ⟨s', hs', hv⟩ := Option.map_eq_some_iff.1 h
  exact ⟨s', .of_replay_eq hs', hv⟩

end Machine

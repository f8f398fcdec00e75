import TinyMuduo.Lib.Machine

/-!
# Lib.Refine

Two machines with the same labels, and a function that says which state of the second stands for a
state of the first.
-/

namespace Machine

variable {σ τ α ε ε' : Type}

/-- From the states in `I`, the first machine makes only steps of the second. -/
structure Refines (m : Machine σ α ε) (m' : Machine τ α ε') (I : σ → Prop) (abs : σ → τ) :
    Prop where
  keeps : Keeps m I
  enabled : ∀ s a, I s → m.enabled s a → m'.enabled (abs s) a
  exec : ∀ s a s', I s → m.enabled s a → m.exec s a = .ok s' → m'.exec (abs s) a = .ok (abs s')

theorem Refines.run {m : Machine σ α ε} {m' : Machine τ α ε'} {I : σ → Prop} {abs : σ → τ}
    (h : Refines m m' I abs) {s s' : σ} {as : List α} (hr : Run m s as s') (hs : I s) :
    Run m' (abs s) as (abs s') := by
  induction hr with
  | nil => exact .nil
  | cons he hx _ ih =>
    exact .cons (h.enabled _ _ hs he) (h.exec _ _ _ hs he hx) (ih (h.keeps _ _ _ hs he hx))

/-- The same labels are left out of both machines. -/
theorem Refines.under {m : Machine σ α ε} {m' : Machine τ α ε'} {I : σ → Prop} {abs : σ → τ}
    (h : Refines m m' I abs) (P : α → Prop) :
    Refines (m.under fun _ a => P a) (m'.under fun _ a => P a) I abs where
  keeps s a s' hs he hx := h.keeps s a s' hs he.1 hx
  enabled s a hs he := ⟨h.enabled s a hs he.1, he.2⟩
  exec s a s' hs he hx := h.exec s a s' hs he.1 hx

end Machine

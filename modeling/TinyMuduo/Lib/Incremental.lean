import Mathlib.Data.List.Basic

/-!
# Lib.Incremental

Readers of a stream that comes in pieces. A reader is one step: from its state and the input that is
not read yet, to the next state and what is left, or `none` when it is finished or needs more input.

* `Reads step s bs s' rest` — the steps from `s` on the input `bs` end in `s'`, with `rest` unread.
* `Stable step` — a step does not depend on input that comes later. Then reading can stop and go on
  when more input has come (`Reads.resume`), and how the input was cut does not matter: reading has
  one result (`Reads.deterministic`).
-/

namespace Incremental

variable {σ β : Type}

inductive Reads (step : σ → List β → Option (σ × List β)) : σ → List β → σ → List β → Prop where
  | stop {s : σ} {bs : List β} : step s bs = none → Reads step s bs s bs
  | step {s s' s'' : σ} {bs bs' rest : List β} :
      step s bs = some (s', bs') → Reads step s' bs' s'' rest → Reads step s bs s'' rest

def Stable (step : σ → List β → Option (σ × List β)) : Prop :=
  ∀ s bs s' rest more, step s bs = some (s', rest) → step s (bs ++ more) = some (s', rest ++ more)

variable {step : σ → List β → Option (σ × List β)} {s s' s'' : σ} {bs rest rest' more : List β}

theorem Reads.stopped (h : Reads step s bs s' rest) : step s' rest = none := by
  induction h with
  | stop hs => exact hs
  | step _ _ ih => exact ih

theorem Reads.deterministic (h : Reads step s bs s' rest) (h' : Reads step s bs s'' rest') :
    s' = s'' ∧ rest = rest' := by
  induction h with
  | stop hs =>
    cases h' with
    | stop => exact ⟨rfl, rfl⟩
    | step hs' => cases hs.symm.trans hs'
  | step hs _ ih =>
    cases h' with
    | stop hs' => cases hs.symm.trans hs'
    | step hs' h' =>
      cases hs.symm.trans hs'
      exact ih h'

/-- Reading stops and goes on when more input has come. -/
theorem Reads.resume (hst : Stable step) (h : Reads step s bs s' rest)
    (h' : Reads step s' (rest ++ more) s'' rest') : Reads step s (bs ++ more) s'' rest' := by
  induction h with
  | stop _ => exact h'
  | step hs _ ih => exact .step (hst _ _ _ _ more hs) (ih h')

/-- Reading a longer input goes on where reading its beginning stopped. -/
theorem Reads.after (hst : Stable step) (h : Reads step s bs s' rest)
    (h' : Reads step s (bs ++ more) s'' rest') : Reads step s' (rest ++ more) s'' rest' := by
  induction h with
  | stop _ => exact h'
  | step hs _ ih =>
    have hs' := hst _ _ _ _ more hs
    cases h' with
    | stop hstop => cases hstop.symm.trans hs'
    | step hs'' h' =>
      cases hs'.symm.trans hs''
      exact ih h'

/-- What is left is the end of the input, when each step takes from its front. -/
theorem Reads.suffix (hstep : ∀ s bs s' rest, step s bs = some (s', rest) → rest <:+ bs)
    (h : Reads step s bs s' rest) : rest <:+ bs := by
  induction h with
  | stop _ => exact List.suffix_refl _
  | step hs _ ih => exact ih.trans (hstep _ _ _ _ hs)

end Incremental

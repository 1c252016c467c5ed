import Mathlib.Data.List.Basic

set_option autoImplicit false

/-! # Deterministic machines that record what they do

A machine is a partial step function which emits one record per step; it stops where the step
function is undefined. `Machine.Run M s es t` says that `M` walks from `s` to `t` and records `es`
on the way. Runs compose (`Run.trans`), and since the step is a function, the run to a final state
is unique (`Run.unique`): to know what a machine does it is enough to exhibit one run that
stops. -/

/-- A deterministic machine over states `σ` that emits a record `ε` with every step. -/
structure Machine (σ ε : Type*) where
  step : σ → Option (ε × σ)

namespace Machine

variable {σ ε : Type*} {M : Machine σ ε}

/-- `Run M s es t`: the steps of `M` lead from `s` to `t` and record `es`. -/
inductive Run (M : Machine σ ε) : σ → List ε → σ → Prop
  | refl (s : σ) : Run M s [] s
  | step {s s' t : σ} {e : ε} {es : List ε} (h : M.step s = some (e, s')) (rest : Run M s' es t) :
      Run M s (e :: es) t

/-- The machine has stopped. -/
def Final (M : Machine σ ε) (s : σ) : Prop := M.step s = none

/-- Runs compose, and so do their records. -/
theorem Run.trans {s t u : σ} {es fs : List ε} (h₁ : Run M s es t) (h₂ : Run M t fs u) :
    Run M s (es ++ fs) u := by
  induction h₁ with
  | refl s => exact h₂
  | step h _ ih => exact .step h (ih h₂)

/-- **The complete run is unique.** Two runs from one state that both stop record the same and end
    in the same state. -/
theorem Run.unique {s t u : σ} {es fs : List ε} (h₁ : Run M s es t) (ht : M.Final t)
    (h₂ : Run M s fs u) (hu : M.Final u) : es = fs ∧ t = u := by
  induction h₁ generalizing fs with
  | refl s =>
      cases h₂ with
      | refl => exact ⟨rfl, rfl⟩
      | step h _ => rw [Final, h] at ht; exact absurd ht (by simp)
  | step h _ ih =>
      cases h₂ with
      | refl => rw [Final, h] at hu; exact absurd hu (by simp)
      | step h' rest' =>
          rw [h, Option.some.injEq, Prod.mk.injEq] at h'
          obtain ⟨rfl, rfl⟩ := h'
          obtain ⟨rfl, rfl⟩ := ih ht rest'
          exact ⟨rfl, rfl⟩

end Machine

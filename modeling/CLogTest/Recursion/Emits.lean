import Mathlib.Data.List.Basic

set_option autoImplicit false

/-! # Steps that emit

A step of a stateful program *emits* `out` when it appends exactly `out` to a trace that is read off
the state. Most steps do so only from states that satisfy an invariant, and keep it; `Emits` states
the two together, so that emissions compose (`Emits.comp`), a guard decides whether its step emits
(`Emits.ite`), and a loop emits what its steps emit, in order (`Emits.foldl`). -/

variable {σ α ε : Type*}

/-- From every state that satisfies `Inv`, `step` leads to such a state and appends `out` to the
    trace. -/
structure Emits (Inv : σ → Prop) (trace : σ → List ε) (step : σ → σ) (out : List ε) : Prop where
  inv : ∀ s, Inv s → Inv (step s)
  trace_eq : ∀ s, Inv s → trace (step s) = trace s ++ out

namespace Emits

variable {Inv : σ → Prop} {trace : σ → List ε}

/-- Invariant and trace may be followed together. -/
theorem of_forall {step : σ → σ} {out : List ε}
    (h : ∀ s, Inv s → Inv (step s) ∧ trace (step s) = trace s ++ out) : Emits Inv trace step out :=
  ⟨fun s hs => (h s hs).1, fun s hs => (h s hs).2⟩

/-- What a step does from other states does not matter. -/
theorem congr {step step' : σ → σ} {out : List ε} (h : Emits Inv trace step out)
    (heq : ∀ s, Inv s → step' s = step s) : Emits Inv trace step' out where
  inv s hs := by
    rw [heq s hs]
    exact h.inv s hs
  trace_eq s hs := by
    rw [heq s hs]
    exact h.trace_eq s hs

/-- A step that does nothing emits nothing. -/
theorem refl (Inv : σ → Prop) (trace : σ → List ε) : Emits Inv trace id [] where
  inv _ hs := hs
  trace_eq _ _ := (List.append_nil _).symm

/-- A guarded step emits under its guard only. -/
theorem ite (guard : Prop) [Decidable guard] {step : σ → σ} {out : List ε}
    (h : guard → Emits Inv trace step out) :
    Emits Inv trace (fun s => if guard then step s else s) (if guard then out else []) := by
  by_cases hguard : guard
  · simp only [if_pos hguard]
    exact h hguard
  · simp only [if_neg hguard]
    exact refl Inv trace

/-- Two steps emit what the first emits and then what the second emits. -/
theorem comp {step step' : σ → σ} {out out' : List ε} (h : Emits Inv trace step out)
    (h' : Emits Inv trace step' out') : Emits Inv trace (step' ∘ step) (out ++ out') where
  inv s hs := h'.inv _ (h.inv s hs)
  trace_eq s hs := by
    rw [Function.comp_apply, h'.trace_eq _ (h.inv s hs), h.trace_eq s hs, List.append_assoc]

/-- **A loop emits what its steps emit, in order.** -/
theorem foldl {step : α → σ → σ} {out : α → List ε} (h : ∀ a, Emits Inv trace (step a) (out a))
    (l : List α) : Emits Inv trace (fun s => l.foldl (fun s a => step a s) s) (l.flatMap out) := by
  induction l with
  | nil => exact refl Inv trace
  | cons a l ih => exact (h a).comp ih

end Emits

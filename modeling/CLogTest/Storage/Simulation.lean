import Mathlib.Algebra.BigOperators.Group.List.Basic
import Mathlib.Data.List.Forall2
import Mathlib.Tactic.Abel

set_option autoImplicit false

/-! # Operations on a state and what they mean

`exec` carries out an operation on a concrete state, or is undefined; `meaning` says what the
operation does to an abstract state, given what it returned. If the relation `R` between the two
survives every operation, a whole run is defined and `R` holds at its end (`runs_simulates`). What
each operation takes in and gives away adds up to the same as what the states hold
(`runs_balance`). -/

namespace Simulation

variable {ι ο σ α : Type*}

/-- All operations in their order, with what they return; undefined as soon as one is. -/
def runs (exec : ι → σ → Option (ο × σ)) : List ι → σ → Option (List ο × σ)
  | [], s => some ([], s)
  | op :: ops, s => do
      let (out, s) ← exec op s
      let (outs, s) ← runs exec ops s
      some (out :: outs, s)

/-- What the operations mean, given what they returned. -/
def replay (meaning : ι → ο → α → α) (ops : List ι) (outs : List ο) (a : α) : α :=
  (ops.zip outs).foldl (fun a step => meaning step.1 step.2 a) a

@[simp] theorem replay_nil (meaning : ι → ο → α → α) (a : α) : replay meaning [] [] a = a := rfl

@[simp] theorem replay_cons (meaning : ι → ο → α → α) (op : ι) (ops : List ι) (out : ο)
    (outs : List ο) (a : α) :
    replay meaning (op :: ops) (out :: outs) a = replay meaning ops outs (meaning op out a) := rfl

/-- **A relation that survives every operation survives every run**, and what each operation
    returns is as `ok` says. -/
theorem runs_simulates {exec : ι → σ → Option (ο × σ)} {meaning : ι → ο → α → α}
    {R : σ → α → Prop} {ok : ι → ο → Prop}
    (hstep : ∀ op s a, R s a →
      ∃ out s', exec op s = some (out, s') ∧ ok op out ∧ R s' (meaning op out a))
    (ops : List ι) {s : σ} {a : α} (h : R s a) :
    ∃ outs s', runs exec ops s = some (outs, s') ∧ List.Forall₂ ok ops outs
      ∧ R s' (replay meaning ops outs a) := by
  induction ops generalizing s a with
  | nil => exact ⟨[], s, rfl, .nil, h⟩
  | cons op ops ih =>
      obtain ⟨out, s₁, hexec, hok, h₁⟩ := hstep op s a h
      obtain ⟨outs, s', hruns, hoks, h'⟩ := ih h₁
      exact ⟨out :: outs, s', by simp [runs, hexec, hruns], .cons hok hoks, h'⟩

/-- **The books of a run balance** if those of every operation do. -/
theorem runs_balance {M : Type*} [AddCommMonoid M] {exec : ι → σ → Option (ο × σ)} {I : σ → Prop}
    (holds : σ → M) (taken given : ι → ο → M)
    (hstep : ∀ op s, I s → ∃ out s', exec op s = some (out, s') ∧ I s'
      ∧ given op out + holds s' = taken op out + holds s)
    (ops : List ι) {s : σ} (h : I s) :
    ∃ outs s', runs exec ops s = some (outs, s') ∧ outs.length = ops.length ∧ I s'
      ∧ ((ops.zip outs).map fun step => given step.1 step.2).sum + holds s'
        = ((ops.zip outs).map fun step => taken step.1 step.2).sum + holds s := by
  induction ops generalizing s with
  | nil => exact ⟨[], s, rfl, rfl, h, rfl⟩
  | cons op ops ih =>
      obtain ⟨out, s₁, hexec, h₁, hbalance⟩ := hstep op s h
      obtain ⟨outs, s', hruns, hlength, h', hbalances⟩ := ih h₁
      refine ⟨out :: outs, s', by simp [runs, hexec, hruns], by simp [hlength], h', ?_⟩
      simp only [List.zip_cons_cons, List.map_cons, List.sum_cons]
      rw [add_assoc, hbalances, add_left_comm, hbalance]
      abel

end Simulation

import Mathlib.Data.Fintype.Card

set_option autoImplicit false

/-! # Threads at a place

Threads share a state, and `pc` says where each of them is. A step moves one thread, so the number
of threads at a place changes by what that thread does (`count_update`), and a count that is kept in
the shared state can be followed from step to step. -/

namespace Threads

variable {ι π : Type*}

section Count

variable [Fintype ι] (P : π → Prop) [DecidablePred P]

/-- The number of threads at a place. -/
def count (pc : ι → π) : ℕ := (Finset.univ.filter fun a => P (pc a)).card

theorem count_le_card (pc : ι → π) : count P pc ≤ Fintype.card ι := Finset.card_le_univ _

variable {P} in
theorem count_eq_zero {pc : ι → π} : count P pc = 0 ↔ ∀ a, ¬ P (pc a) := by
  simp [count, Finset.filter_eq_empty_iff]

variable [DecidableEq ι]

/-- **One thread goes somewhere else.** -/
theorem count_update (pc : ι → π) (a : ι) (p : π) :
    count P (Function.update pc a p) + (if P (pc a) then 1 else 0)
      = count P pc + if P p then 1 else 0 := by
  have hothers : (Finset.univ.erase a).filter (fun b => P (Function.update pc a p b))
      = (Finset.univ.erase a).filter fun b => P (pc b) := by
    refine Finset.filter_congr fun b hb => ?_
    rw [Function.update_of_ne (Finset.ne_of_mem_erase hb)]
  have hsplit : ∀ pc : ι → π, count P pc
      = ((Finset.univ.erase a).filter fun b => P (pc b)).card + if P (pc a) then 1 else 0 := by
    intro pc
    unfold count
    rw [← Finset.insert_erase (Finset.mem_univ a), Finset.filter_insert]
    split
    · rw [Finset.card_insert_of_notMem (by simp)]
      simp
    · simp
  rw [hsplit, hsplit pc, hothers, Function.update_self]
  omega

variable {P}

/-- A thread arrives. -/
theorem count_arrive {pc : ι → π} {a : ι} {p : π} (hold : ¬ P (pc a)) (hnew : P p) :
    count P (Function.update pc a p) = count P pc + 1 := by
  simpa [hold, hnew] using count_update P pc a p

/-- A thread leaves. -/
theorem count_leave {pc : ι → π} {a : ι} {p : π} (hold : P (pc a)) (hnew : ¬ P p) :
    count P (Function.update pc a p) + 1 = count P pc := by
  simpa [hold, hnew] using count_update P pc a p

/-- A thread stays here, or stays away. -/
theorem count_stay {pc : ι → π} {a : ι} {p : π} (h : P p ↔ P (pc a)) :
    count P (Function.update pc a p) = count P pc := by
  simpa [h] using count_update P pc a p

end Count

/-- What holds of every thread still holds after one of them went to `p`, if the others may stay
    where they are. -/
theorem forall_update [DecidableEq ι] (Good Good' : π → Prop) {pc : ι → π} {a : ι} {p : π}
    (hp : Good' p) (hothers : ∀ b, b ≠ a → Good (pc b) → Good' (pc b))
    (h : ∀ b, Good (pc b)) (b : ι) : Good' (Function.update pc a p b) := by
  by_cases heq : b = a
  · rw [heq, Function.update_self]
    exact hp
  · rw [Function.update_of_ne heq]
    exact hothers b heq (h b)

end Threads

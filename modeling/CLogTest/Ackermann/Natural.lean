import Mathlib.Tactic.Linarith
import Mathlib.Tactic.Ring
import CLogTest.Ackermann.Procedure

set_option autoImplicit false

/-! # The recursion over unbounded naturals

What the recursion of `ackermann` computes, logs and needs when its arguments do not wrap: it
returns `ack m n` (`natProc_value`), every activation stays below that value (`natCalls_bound`),
the number of activations of the first rows has a closed form (`callCount_one`, `callCount_two`,
`callCount_three`), and the recursion nests to depth `ack m n + m - 1` (`natHeight_succ`). All of
it by the double induction of `ack`, on `m` and then on `n`. -/

namespace CLogTest

/-- The recursion over unbounded naturals computes the mathematical Ackermann function. -/
theorem natProc_value (m n : ℕ) : natProc.value (m, n) = ack m n := by
  induction m generalizing n with
  | zero => rw [RecProc.value, natProc_eval_zero, ack_zero]
  | succ m ihm =>
      induction n with
      | zero => rw [RecProc.value, natProc_eval_succ_zero, ihm, ack_succ_zero]
      | succ n ihn => rw [RecProc.value, natProc_eval_succ_succ, ihn, ihm, ack_succ_succ]

/-! ## The activations -/

theorem natCalls_zero (n : ℕ) : natProc.calls (0, n) = [(0, n)] := by
  simp [RecProc.calls, RecProc.callTree, natProc_eval_zero]

theorem natCalls_succ_zero (m : ℕ) :
    natProc.calls (m + 1, 0) = (m + 1, 0) :: natProc.calls (m, 1) := by
  simp [RecProc.calls, RecProc.callTree, natProc_eval_succ_zero]

theorem natCalls_succ_succ (m n : ℕ) :
    natProc.calls (m + 1, n + 1)
      = (m + 1, n + 1) :: (natProc.calls (m + 1, n) ++ natProc.calls (m, ack (m + 1) n)) := by
  simp [RecProc.calls, RecProc.callTree, natProc_eval_succ_succ, natProc_value]

/-- **Every activation stays below the result.** In particular no `n + 1` of the run exceeds it. -/
theorem natCalls_bound (m n : ℕ) : ∀ a ∈ natProc.calls (m, n), a.1 ≤ m ∧ a.2 < ack m n := by
  induction m generalizing n with
  | zero =>
      intro a ha
      rw [natCalls_zero, List.mem_singleton] at ha
      subst ha
      exact ⟨le_refl 0, lt_ack_right 0 n⟩
  | succ m ihm =>
      induction n with
      | zero =>
          intro a ha
          rw [natCalls_succ_zero, List.mem_cons] at ha
          rcases ha with rfl | ha
          · exact ⟨le_refl (m + 1), lt_ack_right (m + 1) 0⟩
          · obtain ⟨hm, hn⟩ := ihm 1 a ha
            rw [ack_succ_zero]
            exact ⟨Nat.le_succ_of_le hm, hn⟩
      | succ n ihn =>
          intro a ha
          rw [natCalls_succ_succ, List.mem_cons, List.mem_append] at ha
          rcases ha with rfl | ha | ha
          · exact ⟨le_refl (m + 1), lt_ack_right (m + 1) (n + 1)⟩
          · -- the inner call: its result is below the result, as `ack` is increasing
            obtain ⟨hm, hn⟩ := ihn a ha
            exact ⟨hm, hn.trans (ack_strictMono_right (m + 1) (Nat.lt_succ_self n))⟩
          · -- the outer call returns the result itself
            obtain ⟨hm, hn⟩ := ihm _ a ha
            rw [ack_succ_succ]
            exact ⟨Nat.le_succ_of_le hm, hn⟩

/-! ## The number of activations -/

/-- The number of activations of the recursion started at `(m, n)`. -/
def callCount (m n : ℕ) : ℕ := (natProc.calls (m, n)).length

theorem callCount_zero (n : ℕ) : callCount 0 n = 1 := by
  rw [callCount, natCalls_zero, List.length_singleton]

theorem callCount_succ_zero (m : ℕ) : callCount (m + 1) 0 = callCount m 1 + 1 := by
  rw [callCount, natCalls_succ_zero, List.length_cons, callCount]

theorem callCount_succ_succ (m n : ℕ) :
    callCount (m + 1) (n + 1) = callCount (m + 1) n + callCount m (ack (m + 1) n) + 1 := by
  rw [callCount, natCalls_succ_succ, List.length_cons, List.length_append, callCount, callCount]

theorem callCount_one (n : ℕ) : callCount 1 n = 2 * n + 2 := by
  induction n with
  | zero => rw [callCount_succ_zero, callCount_zero]
  | succ n ih =>
      rw [callCount_succ_succ, callCount_zero, ih]
      ring

theorem callCount_two (n : ℕ) : callCount 2 n = 2 * n ^ 2 + 7 * n + 5 := by
  induction n with
  | zero => rw [callCount_succ_zero, callCount_one]; norm_num
  | succ n ih =>
      rw [callCount_succ_succ, ih, callCount_one, ack_two]
      ring

/-- The row `m = 3`, stated without subtraction. -/
theorem callCount_three (n : ℕ) :
    3 * callCount 3 n + 120 * 2 ^ n = 128 * 4 ^ n + 9 * n + 37 := by
  induction n with
  | zero => rw [callCount_succ_zero, callCount_two]; norm_num
  | succ n ih =>
      -- the outer call runs at `ack 3 n = 2 ^ (n + 3) - 3`; name it without the subtraction
      obtain ⟨v, hv, hack⟩ : ∃ v, v + 3 = 8 * 2 ^ n ∧ ack 3 n = v := by
        have hpos : 1 ≤ 2 ^ n := Nat.one_le_two_pow
        refine ⟨8 * 2 ^ n - 3, by omega, ?_⟩
        rw [ack_three, pow_add, mul_comm]
        norm_num
      have hsq : v ^ 2 + 6 * v + 9 = 64 * 4 ^ n := by
        calc v ^ 2 + 6 * v + 9 = (v + 3) ^ 2 := by ring
          _ = 64 * (2 ^ n) ^ 2 := by rw [hv, mul_pow]; norm_num
          _ = 64 * 4 ^ n := by rw [← pow_mul, mul_comm n 2, pow_mul]; norm_num
      have h2 : 2 ^ (n + 1) = 2 * 2 ^ n := pow_succ' 2 n
      have h4 : 4 ^ (n + 1) = 4 * 4 ^ n := pow_succ' 4 n
      rw [callCount_succ_succ, hack, callCount_two, h2, h4]
      linarith only [ih, hsq, hv]

/-! ## The depth of the recursion -/

theorem natHeight_zero (n : ℕ) : (natProc.callTree (0, n)).height = 1 := by
  simp [RecProc.callTree, natProc_eval_zero]

theorem natHeight_succ_zero (m : ℕ) :
    (natProc.callTree (m + 1, 0)).height = (natProc.callTree (m, 1)).height + 1 := by
  rw [RecProc.callTree, natProc_eval_succ_zero]
  simp

theorem natHeight_succ_succ (m n : ℕ) :
    (natProc.callTree (m + 1, n + 1)).height
      = max (natProc.callTree (m + 1, n)).height (natProc.callTree (m, ack (m + 1) n)).height
        + 1 := by
  rw [RecProc.callTree, natProc_eval_succ_succ]
  simp [natProc_value]

/-- **The depth of the recursion.** Of the two calls of an activation the inner one is the deeper,
    since the outer one starts a row lower and returns only one more. -/
theorem natHeight_succ (m n : ℕ) :
    (natProc.callTree (m + 1, n)).height = ack (m + 1) n + m := by
  induction m generalizing n with
  | zero =>
      induction n with
      | zero => rw [natHeight_succ_zero, natHeight_zero, ack_one]
      | succ n ihn =>
          rw [natHeight_succ_succ, ihn, natHeight_zero, ack_one, ack_one]
          omega
  | succ m ihm =>
      induction n with
      | zero => rw [natHeight_succ_zero, ihm, ack_succ_zero (m + 1)]; omega
      | succ n ihn =>
          have hlt : ack (m + 1 + 1) n < ack (m + 1 + 1) (n + 1) :=
            ack_strictMono_right (m + 1 + 1) (Nat.lt_succ_self n)
          rw [natHeight_succ_succ, ihn, ihm, ← ack_succ_succ (m + 1) n]
          omega

end CLogTest

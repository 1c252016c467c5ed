import Mathlib.Data.Nat.ModEq
import CLogTest.Ackermann.Overflow

set_option autoImplicit false

/-! # The value modulo 2³²

`ackermann` computes with `uint32_t` throughout: the wrapped result of the inner call is an argument
of the outer one. Reduction modulo 2³² does not commute with the recursion in general — `ack 3 k`
modulo 2³² is not a function of `k` modulo 2³² — but it does on the arguments the recursion reaches:

* the rows 0, 1 and 2 are affine, so any argument may be reduced;
* from row 3 on every value is `2 ^ j - 3` (`ack_add_three_eq_two_pow`), so a value that does not
  fit in 32 bits is `-3` modulo 2³², and so is every later value at such an argument.

`Reducible r k` collects the arguments `k` at which row `r` may be computed on words; the induction
is over the rows (`agrees`). -/

namespace CLogTest

/-! ## Values from row 3 on -/

/-- From row 3 on every value is a power of two less three. -/
theorem ack_add_three_eq_two_pow (r k : ℕ) : ∃ j, ack (r + 3) k + 3 = 2 ^ (j + 3) := by
  induction r generalizing k with
  | zero =>
      refine ⟨k, ?_⟩
      have hpos : 2 ^ 3 ≤ 2 ^ (k + 3) := Nat.pow_le_pow_right (by omega) (by omega)
      rw [ack_three]
      omega
  | succ r ih =>
      -- every value of a row is a value of the row below
      cases k with
      | zero => rw [ack_succ_zero]; exact ih 1
      | succ k => rw [ack_succ_succ]; exact ih _

/-- From row 3 on, a value that reaches `2³² - 3` is `-3` modulo 2³². -/
theorem ack_mod_of_le {r k : ℕ} (hr : 3 ≤ r) (hle : 2 ^ 32 - 3 ≤ ack r k) :
    ack r k % 2 ^ 32 = 2 ^ 32 - 3 := by
  obtain ⟨r, rfl⟩ := Nat.exists_eq_add_of_le' hr
  obtain ⟨j, hj⟩ := ack_add_three_eq_two_pow r k
  have h32 : 32 ≤ j + 3 := by
    by_contra hlt
    have hpow : 2 ^ (j + 3) ≤ 2 ^ 31 := Nat.pow_le_pow_right (by omega) (by omega)
    omega
  obtain ⟨c, hc⟩ : 2 ^ 32 ∣ 2 ^ (j + 3) := pow_dvd_pow 2 h32
  omega

/-! ## Arguments that may be reduced -/

/-- Row `r` at `k` may be computed on words. -/
def Reducible (r k : ℕ) : Prop := r < 3 ∨ k < 2 ^ 32 ∨ k % 2 ^ 32 = 2 ^ 32 - 3

theorem reducible_one (r : ℕ) : Reducible r 1 := Or.inr (Or.inl (by norm_num))

/-- The values of the row above are arguments that may be reduced. -/
theorem reducible_ack (r k : ℕ) : Reducible r (ack (r + 1) k) := by
  rcases Nat.lt_or_ge r 3 with hr | hr
  · exact Or.inl hr
  rcases Nat.lt_or_ge (ack (r + 1) k) (2 ^ 32) with hlt | hge
  · exact Or.inr (Or.inl hlt)
  · exact Or.inr (Or.inr (ack_mod_of_le (Nat.le_succ_of_le hr) (le_trans (Nat.sub_le _ _) hge)))

/-- Reducing such an argument does not change the value modulo 2³². -/
theorem ack_modEq_of_reducible {r k : ℕ} (h : Reducible r k) :
    ack r (k % 2 ^ 32) ≡ ack r k [MOD 2 ^ 32] := by
  have hk : k % 2 ^ 32 ≡ k [MOD 2 ^ 32] := Nat.mod_modEq k (2 ^ 32)
  rcases Nat.lt_or_ge r 3 with hr | hr
  · -- the affine rows
    rcases (by omega : r = 0 ∨ r = 1 ∨ r = 2) with rfl | rfl | rfl
    · rw [ack_zero, ack_zero]
      exact hk.add_right 1
    · rw [ack_one, ack_one]
      exact hk.add_right 2
    · rw [ack_two, ack_two]
      exact (hk.mul_left 2).add_right 3
  rcases h with hlt | hlt | hmod
  · omega
  · rw [Nat.mod_eq_of_lt hlt]
  · -- both values exceed an argument of at least `2³² - 3`
    have hge : 2 ^ 32 - 3 ≤ k := hmod ▸ Nat.mod_le k (2 ^ 32)
    rw [Nat.ModEq, hmod, ack_mod_of_le hr (lt_ack_right r _).le,
      ack_mod_of_le hr (hge.trans (lt_ack_right r k).le)]

/-! ## Rows of the 32-bit procedure -/

theorem ofNat_succ_pred (k : ℕ) : UInt32.ofNat (k + 1) - 1 = UInt32.ofNat k :=
  (ofNat_pred (Nat.succ_ne_zero k)).symm

theorem wordValue_zero (k : ℕ) : wordProc.value (toWords (0, k)) = UInt32.ofNat (k + 1) := by
  rw [toWords, ofNat_zero, wordProc_value_zero, UInt32.ofNat_add, UInt32.ofNat_one]

theorem wordValue_succ_zero {r : ℕ} (hr : r + 1 < 2 ^ 32) :
    wordProc.value (toWords (r + 1, 0)) = wordProc.value (toWords (r, 1)) := by
  have hne : UInt32.ofNat (r + 1) ≠ 0 := ofNat_ne_zero (Nat.succ_ne_zero r) hr
  rw [toWords, ofNat_zero, wordProc_value_of_zero hne, ofNat_succ_pred, toWords, UInt32.ofNat_one]

theorem wordValue_succ_succ {r k : ℕ} (hr : r + 1 < 2 ^ 32) (hk : k + 1 < 2 ^ 32) :
    wordProc.value (toWords (r + 1, k + 1))
      = wordProc.value (UInt32.ofNat r, wordProc.value (toWords (r + 1, k))) := by
  have hr0 : UInt32.ofNat (r + 1) ≠ 0 := ofNat_ne_zero (Nat.succ_ne_zero r) hr
  have hk0 : UInt32.ofNat (k + 1) ≠ 0 := ofNat_ne_zero (Nat.succ_ne_zero k) hk
  rw [toWords, wordProc_value_of_ne_zero hr0 hk0, ofNat_succ_pred, ofNat_succ_pred, toWords]

/-- Row `r` of the 32-bit procedure agrees with `ack` at `k`. -/
def Agrees (r k : ℕ) : Prop := wordProc.value (toWords (r, k)) = UInt32.ofNat (ack r k)

theorem ofNat_eq_of_modEq {a b : ℕ} (h : a ≡ b [MOD 2 ^ 32]) : UInt32.ofNat a = UInt32.ofNat b := by
  rw [← UInt32.toNat_inj, UInt32.toNat_ofNat', UInt32.toNat_ofNat']
  exact h

/-- A row that agrees at 32-bit arguments agrees at every argument that may be reduced. -/
theorem agrees_of_reducible {r k : ℕ} (h : ∀ k, k < 2 ^ 32 → Agrees r k) (hk : Reducible r k) :
    Agrees r k := by
  have hword : UInt32.ofNat k = UInt32.ofNat (k % 2 ^ 32) :=
    (ofNat_eq_of_modEq (Nat.mod_modEq k (2 ^ 32))).symm
  rw [Agrees, toWords, hword]
  exact (h _ (Nat.mod_lt k (by norm_num))).trans (ofNat_eq_of_modEq (ack_modEq_of_reducible hk))

/-- **Every row agrees at every 32-bit argument.** -/
theorem agrees {r : ℕ} (hr : r < 2 ^ 32) : ∀ k, k < 2 ^ 32 → Agrees r k := by
  induction r with
  | zero => intro k _; rw [Agrees, wordValue_zero, ack_zero]
  | succ r ihr =>
      -- the row below agrees at 1 and at every value of this row
      have hbelow : ∀ k, Reducible r k → Agrees r k := fun k hk =>
        agrees_of_reducible (ihr (by omega)) hk
      intro k hk
      induction k with
      | zero =>
          rw [Agrees, wordValue_succ_zero hr, ack_succ_zero]
          exact hbelow 1 (reducible_one r)
      | succ k ihk =>
          rw [Agrees, wordValue_succ_succ hr hk, ihk (by omega), ack_succ_succ]
          exact hbelow _ (reducible_ack r k)

/-- **The C function computes the Ackermann function modulo 2³².** -/
theorem wordProc_value (m n : UInt32) :
    (wordProc.value (m, n)).toNat = ack m.toNat n.toNat % 2 ^ 32 := by
  have h : wordProc.value (toWords (toNats (m, n))) = UInt32.ofNat (ack m.toNat n.toNat) :=
    agrees m.toNat_lt n.toNat n.toNat_lt
  rw [toWords_toNats] at h
  rw [h, UInt32.toNat_ofNat']

/-- **`ackermann` returns the Ackermann function modulo 2³²**, and the value itself exactly when it
    fits in 32 bits. -/
theorem ackermann_value_mod {σ : Type*} (loggingFunc : UInt32 → UInt32 → σ → σ) (m n : UInt32)
    (s : σ) :
    (ackermann loggingFunc m n s).1.toNat = ack m.toNat n.toNat % 2 ^ 32
      ∧ ((ackermann loggingFunc m n s).1.toNat = ack m.toNat n.toNat
          ↔ ack m.toNat n.toNat < 2 ^ 32) := by
  have hval : (ackermann loggingFunc m n s).1.toNat = ack m.toNat n.toNat % 2 ^ 32 := by
    rw [ackermann_eq_foldl, wordProc_value]
  refine ⟨hval, ?_⟩
  rw [hval]
  exact Nat.mod_eq_iff_lt (by norm_num)

end CLogTest

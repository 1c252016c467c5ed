import Mathlib.Data.List.Basic
import Mathlib.Data.List.Infix
import Mathlib.Logic.Function.Basic

set_option autoImplicit false

/-! # Numbered slots

A log that is rotated lives in numbered slots: slot 0 takes what is written now, higher numbers are
older. `below n s` lists what the slots below `n` hold, oldest first. Moving the content of a slot
up by one into a free slot does not change that list (`below_move`), emptying a slot only takes away
from it (`below_clear_sublist`), and shifting all slots up by one drops the oldest entry at most
(`below_shift`). -/

namespace Slots

variable {β : Type*}

/-- Slot `i` is emptied. -/
def clear (i : ℕ) (s : ℕ → Option β) : ℕ → Option β := Function.update s i none

/-- The content of slot `i` moves to slot `j`, over what `j` held. -/
def move (i j : ℕ) (s : ℕ → Option β) : ℕ → Option β :=
  Function.update (Function.update s i none) j (s i)

/-- What the slots below `n` hold, the highest slot first. -/
def below : ℕ → (ℕ → Option β) → List β
  | 0, _ => []
  | n + 1, s => (s n).toList ++ below n s

/-- The slots 0, …, `k - 1` move up by one, over what slot `k` held. -/
def shift (k : ℕ) (s : ℕ → Option β) : ℕ → Option β
  | 0 => if k = 0 then s 0 else none
  | i + 1 => if i < k then s i else s (i + 1)

@[simp] theorem clear_self (i : ℕ) (s : ℕ → Option β) : clear i s i = none := by
  simp [clear]

theorem clear_of_ne {i x : ℕ} (h : x ≠ i) (s : ℕ → Option β) : clear i s x = s x := by
  simp [clear, h]

theorem clear_of_none {i : ℕ} {s : ℕ → Option β} (h : s i = none) : clear i s = s := by
  unfold clear
  rw [← h, Function.update_eq_self]

@[simp] theorem move_target (i j : ℕ) (s : ℕ → Option β) : move i j s j = s i := by
  simp [move]

theorem move_source {i j : ℕ} (h : i ≠ j) (s : ℕ → Option β) : move i j s i = none := by
  simp [move, h]

theorem move_of_ne {i j x : ℕ} (hi : x ≠ i) (hj : x ≠ j) (s : ℕ → Option β) :
    move i j s x = s x := by
  simp [move, hi, hj]

@[simp] theorem move_self (i : ℕ) (s : ℕ → Option β) : move i i s = s := by
  simp [move]

/-- There is nothing to move. -/
theorem move_of_none {i j : ℕ} (h : i ≠ j) {s : ℕ → Option β} (hs : s i = none) :
    move i j s = clear j s := by
  funext x
  by_cases hj : x = j
  · rw [hj, move_target, clear_self, hs]
  · by_cases hi : x = i
    · rw [hi, move_source h, clear_of_ne h, hs]
    · rw [move_of_ne hi hj, clear_of_ne hj]

/-- What the target held is lost. -/
theorem move_clear {i j : ℕ} (h : i ≠ j) (s : ℕ → Option β) :
    move i j (clear j s) = move i j s := by
  funext x
  by_cases hj : x = j
  · rw [hj, move_target, move_target, clear_of_ne h]
  · by_cases hi : x = i
    · rw [hi, move_source h, move_source h]
    · rw [move_of_ne hi hj, move_of_ne hi hj, clear_of_ne hj]

/-! ## What the slots hold, in order -/

@[simp] theorem below_zero (s : ℕ → Option β) : below 0 s = [] := rfl

theorem below_succ (n : ℕ) (s : ℕ → Option β) :
    below (n + 1) s = (s n).toList ++ below n s := rfl

theorem below_congr {n : ℕ} {s t : ℕ → Option β} (h : ∀ i < n, s i = t i) :
    below n s = below n t := by
  induction n with
  | zero => rfl
  | succ n ih =>
      rw [below_succ, below_succ, h n (Nat.lt_succ_self n),
        ih fun i hi => h i (Nat.lt_succ_of_lt hi)]

/-- Emptying a slot takes away from the list only. -/
theorem below_clear_sublist (n i : ℕ) (s : ℕ → Option β) :
    (below n (clear i s)).Sublist (below n s) := by
  induction n with
  | zero => exact List.Sublist.refl _
  | succ n ih =>
      rw [below_succ, below_succ]
      refine List.Sublist.append ?_ ih
      by_cases h : n = i
      · rw [h, clear_self]
        exact List.nil_sublist _
      · rw [clear_of_ne h]

/-- **A step up into a free slot keeps the list.** -/
theorem below_move {n i : ℕ} (hi : i + 1 < n) {s : ℕ → Option β} (h : s (i + 1) = none) :
    below n (move i (i + 1) s) = below n s := by
  induction hi with
  | refl =>
      rw [below_succ, below_succ, below_succ, below_succ, move_target,
        move_source (Nat.succ_ne_self i).symm, h]
      rw [below_congr fun x hx => move_of_ne (by omega) (by omega) s]
      simp
  | @step n hn ih =>
      have hn' : i + 1 < n := hn
      rw [below_succ, below_succ, ih, move_of_ne (by omega) (by omega)]

/-- A step up over another slot keeps the order. -/
theorem below_move_sublist {n i : ℕ} (hi : i + 1 < n) (s : ℕ → Option β) :
    (below n (move i (i + 1) s)).Sublist (below n s) := by
  rw [← move_clear (Nat.succ_ne_self i).symm, below_move hi (clear_self _ s)]
  exact below_clear_sublist n (i + 1) s

/-! ## Shifting -/

theorem shift_at_zero {k : ℕ} (h : 0 < k) (s : ℕ → Option β) : shift k s 0 = none :=
  if_neg h.ne'

theorem shift_at_succ {i k : ℕ} (h : i < k) (s : ℕ → Option β) : shift k s (i + 1) = s i :=
  if_pos h

theorem shift_above {i k : ℕ} (h : k ≤ i) (s : ℕ → Option β) :
    shift k s (i + 1) = s (i + 1) :=
  if_neg h.not_gt

@[simp] theorem shift_zero (s : ℕ → Option β) : shift 0 s = s := by
  funext x
  cases x <;> rfl

/-- A shift starts with its highest slot. -/
theorem shift_succ (k : ℕ) (s : ℕ → Option β) :
    shift (k + 1) s = shift k (move k (k + 1) s) := by
  funext x
  cases x with
  | zero =>
      rw [shift_at_zero (Nat.succ_pos k)]
      cases k with
      | zero => rw [shift_zero, move_source Nat.zero_ne_one]
      | succ k => rw [shift_at_zero (Nat.succ_pos k)]
  | succ i =>
      rcases lt_trichotomy i k with hlt | heq | hgt
      · rw [shift_at_succ (by omega), shift_at_succ hlt, move_of_ne (by omega) (by omega)]
      · rw [heq, shift_at_succ (Nat.lt_succ_self k), shift_above le_rfl, move_target]
      · rw [shift_above (by omega), shift_above hgt.le, move_of_ne (by omega) (by omega)]

theorem below_shift_of_le {m k : ℕ} (hk : 0 < k) (h : m ≤ k) (s : ℕ → Option β) :
    below (m + 1) (shift k s) = below m s := by
  induction m with
  | zero => rw [below_succ, shift_at_zero hk, below_zero, below_zero, Option.toList_none,
      List.append_nil]
  | succ m ih => rw [below_succ, ih (by omega), shift_at_succ (by omega), below_succ]

/-- **A shift drops what the last slot held.** -/
theorem below_shift {k : ℕ} (hk : 0 < k) (s : ℕ → Option β) :
    below (k + 1) (shift k s) = below k s :=
  below_shift_of_le hk le_rfl s

end Slots

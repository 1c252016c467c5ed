import Mathlib.Data.List.Nodup
import Mathlib.Data.List.Range
import Mathlib.Data.Set.Finite.Lattice
import Mathlib.Order.Interval.Set.Nat
import CLogTest.Storage.Slots

set_option autoImplicit false

/-! # Generations

Files are numbered by the order in which they are created; slots hold them. As long as the slots
are aged, that is, an older slot holds an older file, and hold exactly the files from `floor` on,
listing them by age lists the files `floor`, …, `next - 1` (`Aged.filterMap`). Creating a file in
the youngest slot, moving one to a free slot of the same age, and emptying the oldest slot keep
that. -/

namespace Slots

variable {older : ℕ → ℕ → Prop} {s : ℕ → Option ℕ} {floor next : ℕ}

/-- The slots hold the files from `floor` on, in the order of their ages. -/
structure Aged (older : ℕ → ℕ → Prop) (s : ℕ → Option ℕ) (floor next : ℕ) : Prop where
  lt : ∀ {i j a b}, older i j → s i = some a → s j = some b → a < b
  mem : ∀ a, (∃ i, s i = some a) ↔ floor ≤ a ∧ a < next
  floor_le : floor ≤ next

namespace Aged

theorem lt_next (h : Aged older s floor next) {i a : ℕ} (hi : s i = some a) : a < next :=
  ((h.mem a).mp ⟨i, hi⟩).2

/-- The youngest slot holds the last file created. -/
theorem youngest (h : Aged older s floor next) {i a : ℕ} (hi : s i = some a)
    (hyoungest : ∀ j, (s j).isSome → j ≠ i → older j i) : a + 1 = next := by
  obtain ⟨hfloor, hnext⟩ := (h.mem a).mp ⟨i, hi⟩
  obtain ⟨j, hj⟩ := (h.mem (next - 1)).mpr (by omega)
  by_cases hij : j = i
  · rw [hij, hi] at hj
    have := Option.some.inj hj
    omega
  · have := h.lt (hyoungest j (by rw [hj]; rfl) hij) hj hi
    omega

/-- The oldest slot holds the first file left. -/
theorem oldest (h : Aged older s floor next) {i a : ℕ} (hi : s i = some a)
    (holdest : ∀ j, (s j).isSome → j ≠ i → older i j) : a = floor := by
  obtain ⟨hfloor, hnext⟩ := (h.mem a).mp ⟨i, hi⟩
  obtain ⟨j, hj⟩ := (h.mem floor).mpr (by omega)
  by_cases hij : j = i
  · rw [hij, hi] at hj
    exact Option.some.inj hj
  · have := h.lt (holdest j (by rw [hj]; rfl) hij) hi hj
    omega

/-- A file is created in a free slot that is younger than the others. -/
theorem create (h : Aged older s floor next) {i : ℕ} (hi : s i = none)
    (hyoungest : ∀ j, (s j).isSome → ¬ older i j) (hirrefl : ¬ older i i) :
    Aged older (Function.update s i (some next)) floor (next + 1) where
  lt {j k a b} hjk hj hk := by
    by_cases hji : j = i
    · subst hji
      by_cases hki : k = j
      · subst hki
        exact absurd hjk hirrefl
      · rw [Function.update_of_ne hki] at hk
        exact absurd hjk (hyoungest k (by rw [hk]; rfl))
    · rw [Function.update_of_ne hji] at hj
      by_cases hki : k = i
      · subst hki
        rw [Function.update_self] at hk
        obtain rfl := Option.some.inj hk
        exact h.lt_next hj
      · rw [Function.update_of_ne hki] at hk
        exact h.lt hjk hj hk
  mem a := by
    have hfloor := h.floor_le
    constructor
    · rintro ⟨j, hj⟩
      by_cases hji : j = i
      · subst hji
        rw [Function.update_self] at hj
        obtain rfl := Option.some.inj hj
        omega
      · rw [Function.update_of_ne hji] at hj
        have := (h.mem a).mp ⟨j, hj⟩
        omega
    · rintro ⟨ha, hlt⟩
      rcases Nat.lt_succ_iff_lt_or_eq.mp hlt with hlt | rfl
      · obtain ⟨j, hj⟩ := (h.mem a).mpr ⟨ha, hlt⟩
        have hji : j ≠ i := by
          rintro rfl
          rw [hi] at hj
          cases hj
        exact ⟨j, by rw [Function.update_of_ne hji, hj]⟩
      · exact ⟨i, Function.update_self ..⟩
  floor_le := Nat.le_succ_of_le h.floor_le

/-- A file moves to a free slot of the same age. -/
theorem move (h : Aged older s floor next) {i j : ℕ} (hij : i ≠ j) (hj : s j = none)
    (hsame : ∀ k, (s k).isSome → k ≠ i → (older k j → older k i) ∧ (older j k → older i k))
    (hirrefl : ¬ older j j) : Aged older (move i j s) floor next where
  lt {k l a b} hkl hk hl := by
    have hk' : k ≠ i := by
      rintro rfl
      rw [move_source hij] at hk
      cases hk
    have hl' : l ≠ i := by
      rintro rfl
      rw [move_source hij] at hl
      cases hl
    by_cases hkj : k = j
    · subst hkj
      rw [move_target] at hk
      by_cases hlj : l = k
      · subst hlj
        exact absurd hkl hirrefl
      · rw [move_of_ne hl' hlj] at hl
        exact h.lt ((hsame l (by rw [hl]; rfl) hl').2 hkl) hk hl
    · rw [move_of_ne hk' hkj] at hk
      by_cases hlj : l = j
      · subst hlj
        rw [move_target] at hl
        exact h.lt ((hsame k (by rw [hk]; rfl) hk').1 hkl) hk hl
      · rw [move_of_ne hl' hlj] at hl
        exact h.lt hkl hk hl
  mem a := by
    rw [← h.mem a]
    constructor
    · rintro ⟨k, hk⟩
      by_cases hkj : k = j
      · subst hkj
        rw [move_target] at hk
        exact ⟨i, hk⟩
      · by_cases hki : k = i
        · subst hki
          rw [move_source hij] at hk
          cases hk
        · rw [move_of_ne hki hkj] at hk
          exact ⟨k, hk⟩
    · rintro ⟨k, hk⟩
      by_cases hki : k = i
      · subst hki
        exact ⟨j, by rw [move_target, hk]⟩
      · have hkj : k ≠ j := by
          rintro rfl
          rw [hj] at hk
          cases hk
        exact ⟨k, by rw [move_of_ne hki hkj, hk]⟩
  floor_le := h.floor_le

/-- The oldest slot is emptied. -/
theorem clear (h : Aged older s floor next) {i : ℕ} (hi : (s i).isSome)
    (holdest : ∀ j, (s j).isSome → j ≠ i → older i j) :
    Aged older (clear i s) (floor + 1) next where
  lt {j k a b} hjk hj hk := by
    have hj' : j ≠ i := by
      rintro rfl
      rw [clear_self] at hj
      cases hj
    have hk' : k ≠ i := by
      rintro rfl
      rw [clear_self] at hk
      cases hk
    rw [clear_of_ne hj'] at hj
    rw [clear_of_ne hk'] at hk
    exact h.lt hjk hj hk
  mem a := by
    obtain ⟨b, hb⟩ := Option.isSome_iff_exists.mp hi
    obtain rfl := h.oldest hb holdest
    constructor
    · rintro ⟨j, hj⟩
      by_cases hji : j = i
      · subst hji
        rw [clear_self] at hj
        cases hj
      · rw [clear_of_ne hji] at hj
        have hlt := h.lt (holdest j (by rw [hj]; rfl) hji) hb hj
        exact ⟨hlt, h.lt_next hj⟩
    · rintro ⟨ha, hnext⟩
      obtain ⟨j, hj⟩ := (h.mem a).mpr ⟨by omega, hnext⟩
      have hji : j ≠ i := by
        rintro rfl
        rw [hb] at hj
        have := Option.some.inj hj
        omega
      exact ⟨j, by rw [clear_of_ne hji, hj]⟩
  floor_le := by
    obtain ⟨b, hb⟩ := Option.isSome_iff_exists.mp hi
    obtain rfl := h.oldest hb holdest
    exact h.lt_next hb

end Aged

end Slots

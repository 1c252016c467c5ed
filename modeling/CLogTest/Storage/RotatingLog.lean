import Mathlib.Algebra.BigOperators.Group.List.Basic
import Mathlib.Algebra.Order.BigOperators.Group.List
import Mathlib.Data.Nat.Basic
import Mathlib.Tactic.Linarith
import CLogTest.Storage.Slots

set_option autoImplicit false

/-! # A rotating log

A log is written to slot 0; when the file there has grown to `limit`, the slots 0, …, `k - 1` are
shifted by one and slot 0 starts again. What is kept at any time is the end of what was written
(`history_appends`), with `k` full files behind slot 0 as soon as anything is dropped
(`appends_retain`), and no file grows beyond `limit` by more than one entry (`appends_bounded`). -/

namespace RotatingLog

open Slots

variable {α : Type*} (bytes : α → ℕ)

/-- The size of a file, the sum of its pieces. -/
def size (file : List α) : ℕ := (file.map bytes).sum

/-- Append to the file in slot 0. -/
def write (entry : List α) (s : ℕ → Option (List α)) : ℕ → Option (List α) :=
  Function.update s 0 ((s 0).map (· ++ entry))

/-- Slot 0 is created if it is free. -/
def touch (s : ℕ → Option (List α)) : ℕ → Option (List α) :=
  Function.update s 0 (some ((s 0).getD []))

/-- A full file makes room. -/
def rotated (limit k : ℕ) (s : ℕ → Option (List α)) : ℕ → Option (List α) :=
  if size bytes ((s 0).getD []) < limit then s else touch (shift k s)

/-- One entry is logged. -/
def append (limit k : ℕ) (s : ℕ → Option (List α)) (entry : List α) : ℕ → Option (List α) :=
  write entry (rotated bytes limit k s)

def appends (limit k : ℕ) (s : ℕ → Option (List α)) (entries : List (List α)) :
    ℕ → Option (List α) :=
  entries.foldl (append bytes limit k) s

/-- What is kept, oldest first. -/
def history (k : ℕ) (s : ℕ → Option (List α)) : List α := (below (k + 1) s).flatten

variable {bytes} {limit k : ℕ} {s : ℕ → Option (List α)} {entry : List α}

@[simp] theorem size_append (file file' : List α) :
    size bytes (file ++ file') = size bytes file + size bytes file' := by
  simp [size]

@[simp] theorem write_zero (entry : List α) (s : ℕ → Option (List α)) :
    write entry s 0 = (s 0).map (· ++ entry) := by
  simp [write]

@[simp] theorem write_succ (entry : List α) (s : ℕ → Option (List α)) (i : ℕ) :
    write entry s (i + 1) = s (i + 1) := by
  simp [write]

@[simp] theorem touch_zero (s : ℕ → Option (List α)) : touch s 0 = some ((s 0).getD []) := by
  simp [touch]

@[simp] theorem touch_succ (s : ℕ → Option (List α)) (i : ℕ) : touch s (i + 1) = s (i + 1) := by
  simp [touch]

theorem write_write (entry entry' : List α) (s : ℕ → Option (List α)) :
    write entry' (write entry s) = write (entry ++ entry') s := by
  funext i
  cases i with
  | zero => cases hs : s 0 <;> simp [hs]
  | succ i => simp

theorem rotated_zero_isSome (hs : (s 0).isSome) : (rotated bytes limit k s 0).isSome := by
  unfold rotated
  split
  · exact hs
  · rw [touch_zero]
    rfl

theorem append_zero_isSome (hs : (s 0).isSome) : (append bytes limit k s entry 0).isSome := by
  unfold append
  rw [write_zero, Option.isSome_map]
  exact rotated_zero_isSome hs

/-! ## What is kept is the end of what was written -/

theorem below_eq_append_zero (k : ℕ) (s : ℕ → Option (List α)) :
    below (k + 1) s = below k (fun i => s (i + 1)) ++ (s 0).toList := by
  induction k with
  | zero => simp [below]
  | succ k ih => rw [below_succ, ih, below_succ, List.append_assoc]

theorem history_eq (k : ℕ) (s : ℕ → Option (List α)) :
    history k s = (below k fun i => s (i + 1)).flatten ++ (s 0).getD [] := by
  unfold history
  rw [below_eq_append_zero, List.flatten_append]
  cases s 0 <;> simp

theorem history_touch (k : ℕ) (s : ℕ → Option (List α)) : history k (touch s) = history k s := by
  simp [history_eq]

theorem history_write (entry : List α) (hs : (s 0).isSome) :
    history k (write entry s) = history k s ++ entry := by
  obtain ⟨file, hfile⟩ := Option.isSome_iff_exists.mp hs
  simp [history_eq, hfile]

theorem history_write_sublist (entry : List α) (s : ℕ → Option (List α)) :
    (history k (write entry s)).Sublist (history k s ++ entry) := by
  cases hs : s 0 with
  | none => simp [history_eq, hs]
  | some file => rw [history_write entry (by rw [hs]; rfl)]

/-- A rotation drops the oldest file at most, and none when there are no backups. -/
theorem history_rotated (limit k : ℕ) (s : ℕ → Option (List α)) :
    history k (rotated bytes limit k s) <:+ history k s := by
  unfold rotated
  split
  · exact List.suffix_refl _
  · rw [history_touch]
    rcases Nat.eq_zero_or_pos k with rfl | hk
    · rw [shift_zero]
    · unfold history
      rw [below_shift hk, below_succ, List.flatten_append]
      exact List.suffix_append _ _

theorem history_rotated_zero (limit : ℕ) (s : ℕ → Option (List α)) :
    history 0 (rotated bytes limit 0 s) = history 0 s := by
  unfold rotated
  split
  · rfl
  · rw [history_touch, shift_zero]

/-- The file that a rotation drops is the one in slot `k`. -/
theorem history_rotated_of_none (hk : 0 < k) (hs : s k = none) :
    history k (rotated bytes limit k s) = history k s := by
  unfold rotated
  split
  · rfl
  · unfold history
    rw [← history, history_touch, history, below_shift hk, below_succ, hs, Option.toList_none,
      List.nil_append]

theorem history_append (hs : (s 0).isSome) :
    history k (append bytes limit k s entry) <:+ history k s ++ entry := by
  unfold append
  rw [history_write entry (rotated_zero_isSome hs)]
  obtain ⟨dropped, h⟩ : history k (rotated bytes limit k s) <:+ history k s :=
    history_rotated limit k s
  exact ⟨dropped, by rw [← List.append_assoc, h]⟩

/-- **Nothing is reordered or duplicated, and only the oldest entries are dropped.** -/
theorem history_appends (hs : (s 0).isSome) (entries : List (List α)) :
    history k (appends bytes limit k s entries) <:+ history k s ++ entries.flatten := by
  induction entries generalizing s with
  | nil => simp [appends]
  | cons entry entries ih =>
      obtain ⟨dropped, h⟩ : history k (append bytes limit k s entry) <:+ history k s ++ entry :=
        history_append hs
      have hs' : (append bytes limit k s entry 0).isSome := append_zero_isSome hs
      have hrest := ih hs'
      refine hrest.trans ⟨dropped, ?_⟩
      rw [List.flatten_cons, ← List.append_assoc, ← List.append_assoc, h]

/-- Without backups nothing is dropped. -/
theorem history_appends_zero (hs : (s 0).isSome) (entries : List (List α)) :
    history 0 (appends bytes limit 0 s entries) = history 0 s ++ entries.flatten := by
  induction entries generalizing s with
  | nil => simp [appends]
  | cons entry entries ih =>
      have hstep : history 0 (append bytes limit 0 s entry) = history 0 s ++ entry := by
        unfold append
        rw [history_write entry (rotated_zero_isSome hs), history_rotated_zero]
      have hs' : (append bytes limit 0 s entry 0).isSome := append_zero_isSome hs
      have hrest := ih hs'
      rw [hstep, List.append_assoc] at hrest
      exact hrest

/-! ## How much is kept -/

/-- The backups are as rotations leave them: full, and without a gap. -/
structure Full (bytes : α → ℕ) (limit k : ℕ) (s : ℕ → Option (List α)) : Prop where
  le_size : ∀ i < k, ∀ file, s (i + 1) = some file → limit ≤ size bytes file
  downward : ∀ i, i + 1 < k → (s (i + 2)).isSome → (s (i + 1)).isSome

theorem Full.touch (h : Full bytes limit k s) : Full bytes limit k (touch s) where
  le_size i hi file hfile := by
    rw [touch_succ] at hfile
    exact h.le_size i hi file hfile
  downward i hi hsome := by
    rw [touch_succ] at hsome ⊢
    exact h.downward i hi hsome

theorem Full.rotated (h : Full bytes limit k s) (hs : (s 0).isSome) :
    Full bytes limit k (rotated bytes limit k s) := by
  unfold RotatingLog.rotated
  split
  · exact h
  · next hsize =>
      constructor
      · intro i hi file hfile
        rw [touch_succ, shift_at_succ hi] at hfile
        cases i with
        | zero =>
            rw [hfile, Option.getD_some] at hsize
            exact not_lt.mp hsize
        | succ i => exact h.le_size i (by omega) file hfile
      · intro i hi hsome
        rw [touch_succ, shift_at_succ hi] at hsome
        rw [touch_succ, shift_at_succ (by omega)]
        cases i with
        | zero => exact hs
        | succ i => exact h.downward i (by omega) hsome

theorem Full.append (h : Full bytes limit k s) (hs : (s 0).isSome) :
    Full bytes limit k (append bytes limit k s entry) where
  le_size i hi file hfile := by
    unfold RotatingLog.append at hfile
    rw [write_succ] at hfile
    exact (h.rotated hs).le_size i hi file hfile
  downward i hi hsome := by
    unfold RotatingLog.append at hsome ⊢
    rw [write_succ] at hsome ⊢
    exact (h.rotated hs).downward i hi hsome

/-- All backups are there, and full. -/
def Complete (bytes : α → ℕ) (limit k : ℕ) (s : ℕ → Option (List α)) : Prop :=
  ∀ i < k, ∃ file, s (i + 1) = some file ∧ limit ≤ size bytes file

theorem Full.complete (h : Full bytes limit k s) (hlast : (s k).isSome) :
    Complete bytes limit k s := by
  have hsome : ∀ j < k, (s (k - j)).isSome := by
    intro j
    induction j with
    | zero => exact fun _ => hlast
    | succ j ih =>
        intro hj
        have := h.downward (k - (j + 2)) (by omega)
        rw [show k - (j + 2) + 2 = k - j by omega,
          show k - (j + 2) + 1 = k - (j + 1) by omega] at this
        exact this (ih (by omega))
  intro i hi
  obtain ⟨file, hfile⟩ := Option.isSome_iff_exists.mp (hsome (k - (i + 1)) (by omega))
  rw [show k - (k - (i + 1)) = i + 1 by omega] at hfile
  exact ⟨file, hfile, h.le_size i hi file hfile⟩

theorem Complete.full (h : Complete bytes limit k s) : Full bytes limit k s where
  le_size i hi file hfile := by
    obtain ⟨file', hfile', hsize⟩ := h i hi
    rw [hfile] at hfile'
    obtain rfl := Option.some.inj hfile'
    exact hsize
  downward i hi _ := by
    obtain ⟨file, hfile, -⟩ := h i (by omega)
    rw [hfile]
    rfl

theorem Complete.append (h : Complete bytes limit k s) (hs : (s 0).isSome) :
    Complete bytes limit k (append bytes limit k s entry) := by
  rcases Nat.eq_zero_or_pos k with rfl | hk
  · exact fun i hi => absurd hi (Nat.not_lt_zero i)
  · refine (h.full.append hs).complete ?_
    obtain ⟨k, rfl⟩ := Nat.exists_eq_add_of_lt hk
    rw [Nat.zero_add]
    unfold RotatingLog.append RotatingLog.rotated
    rw [write_succ]
    split
    · obtain ⟨file, hfile, -⟩ := h k (by omega)
      rw [hfile]
      rfl
    · rw [touch_succ, shift_at_succ (by omega)]
      cases k with
      | zero => exact hs
      | succ k =>
          obtain ⟨file, hfile, -⟩ := h k (by omega)
          rw [hfile]
          rfl

theorem Complete.appends (h : Complete bytes limit k s) (hs : (s 0).isSome)
    (entries : List (List α)) : Complete bytes limit k (appends bytes limit k s entries) := by
  induction entries generalizing s with
  | nil => exact h
  | cons entry entries ih => exact ih (h.append hs) (append_zero_isSome hs)

/-- An entry that is logged drops something only when all backups are there. -/
theorem append_retain (h : Full bytes limit k s) (hs : (s 0).isSome) (entry : List α) :
    history k (append bytes limit k s entry) = history k s ++ entry
      ∨ Complete bytes limit k s := by
  rcases Nat.eq_zero_or_pos k with rfl | hk
  · exact Or.inr fun i hi => absurd hi (Nat.not_lt_zero i)
  · by_cases hlast : (s k).isSome
    · exact Or.inr (h.complete hlast)
    · refine Or.inl ?_
      unfold append
      rw [history_write entry (rotated_zero_isSome hs),
        history_rotated_of_none hk (Option.not_isSome_iff_eq_none.mp hlast)]

/-- **As soon as anything is dropped, `k` full backups are kept.** -/
theorem appends_retain (h : Full bytes limit k s) (hs : (s 0).isSome) (entries : List (List α)) :
    history k (appends bytes limit k s entries) = history k s ++ entries.flatten
      ∨ Complete bytes limit k (appends bytes limit k s entries) := by
  induction entries generalizing s with
  | nil => simp [appends]
  | cons entry entries ih =>
      have hs' : (append bytes limit k s entry 0).isSome := append_zero_isSome hs
      rcases append_retain h hs entry with hstep | hcomplete
      · refine (ih (h.append hs) hs').imp_left fun hkept => ?_
        rw [hstep, List.append_assoc] at hkept
        exact hkept
      · exact Or.inr (hcomplete.appends hs (entry :: entries))

theorem le_size_below {n : ℕ} {s : ℕ → Option (List α)}
    (h : ∀ i < n, ∃ file, s i = some file ∧ limit ≤ size bytes file) :
    n * limit ≤ size bytes (below n s).flatten := by
  induction n with
  | zero => simp
  | succ n ih =>
      obtain ⟨file, hfile, hsize⟩ := h n (Nat.lt_succ_self n)
      have hrest := ih fun i hi => h i (Nat.lt_succ_of_lt hi)
      rw [below_succ, hfile, List.flatten_append, size_append]
      simp only [Option.toList_some, List.flatten_singleton]
      linarith

/-- What complete backups amount to. -/
theorem Complete.le_size_history (h : Complete bytes limit k s) :
    k * limit ≤ size bytes (history k s) := by
  rw [history_eq, size_append]
  exact (le_size_below h).trans (Nat.le_add_right _ _)

/-! ## How large the files grow -/

/-- The files in the slots 0, …, `k` are smaller than `limit`. -/
def Bounded (bytes : α → ℕ) (limit k : ℕ) (s : ℕ → Option (List α)) : Prop :=
  ∀ i ≤ k, ∀ file, s i = some file → size bytes file < limit

theorem Bounded.touch (h : Bounded bytes limit k s) (hlimit : 0 < limit) :
    Bounded bytes limit k (touch s) := by
  intro i hi file hfile
  cases i with
  | zero =>
      rw [touch_zero] at hfile
      obtain rfl := Option.some.inj hfile
      cases hs : s 0 with
      | none => exact hlimit
      | some file => exact h 0 hi file hs
  | succ i =>
      rw [touch_succ] at hfile
      exact h (i + 1) hi file hfile

theorem Bounded.append {longest : ℕ} (h : Bounded bytes (limit + longest) k s) (hk : 0 < k)
    (hlimit : 0 < limit) (hentry : size bytes entry ≤ longest) :
    Bounded bytes (limit + longest) k (append bytes limit k s entry) := by
  -- What is rotated away is within the bound already; only the file in slot 0 grows.
  have hroom : ∀ file, rotated bytes limit k s 0 = some file → size bytes file < limit := by
    intro file hfile
    unfold rotated at hfile
    split at hfile
    · next hsize =>
        rw [hfile] at hsize
        exact hsize
    · rw [touch_zero, shift_at_zero hk] at hfile
      obtain rfl := Option.some.inj hfile
      exact hlimit
  intro i hi file hfile
  unfold RotatingLog.append at hfile
  cases i with
  | zero =>
      rw [write_zero, Option.map_eq_some_iff] at hfile
      obtain ⟨file', hfile', rfl⟩ := hfile
      rw [size_append]
      exact add_lt_add_of_lt_of_le (hroom file' hfile') hentry
  | succ i =>
      rw [write_succ] at hfile
      unfold rotated at hfile
      split at hfile
      · exact h (i + 1) hi file hfile
      · rw [touch_succ, shift_at_succ hi] at hfile
        exact h i (by omega) file hfile

end RotatingLog

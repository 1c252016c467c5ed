import Mathlib.Logic.Basic
import Mathlib.Tactic.SplitIfs

set_option autoImplicit false

/-! # Values kept with what they were computed from

A cell keeps the last value of a function together with its argument, and computes it anew when it
is asked for another. A vacant argument marks a cell that was never filled; for all others a cell
always answers with the value of the function (`Valid.value_refresh`). -/

namespace Memo

variable {κ α : Type*}

/-- A value and what it was computed from. -/
structure Cell (κ α : Type*) where
  key : κ
  value : α

namespace Cell

/-- The cell, made up to date. -/
def refresh [DecidableEq κ] (f : κ → α) (now : κ) (cell : Cell κ α) : Cell κ α :=
  if cell.key ≠ now then ⟨now, f now⟩ else cell

/-- What is kept is a value of the function. -/
def Valid (vacant : κ) (f : κ → α) (cell : Cell κ α) : Prop :=
  cell.key ≠ vacant → cell.value = f cell.key

@[simp] theorem key_refresh [DecidableEq κ] (f : κ → α) (now : κ) (cell : Cell κ α) :
    (cell.refresh f now).key = now := by
  unfold refresh
  split_ifs with h
  · rfl
  · exact not_not.mp h

variable [DecidableEq κ] {vacant now : κ} {f : κ → α} {cell : Cell κ α}

/-- **A cell answers with the value of the function.** -/
theorem Valid.value_refresh (h : cell.Valid vacant f) (hnow : now ≠ vacant) :
    (cell.refresh f now).value = f now := by
  unfold refresh
  split_ifs with hkey
  · rfl
  · obtain rfl := not_not.mp hkey
    exact h hnow

theorem Valid.refresh (h : cell.Valid vacant f) (hnow : now ≠ vacant) :
    (cell.refresh f now).Valid vacant f := by
  intro _
  rw [key_refresh, h.value_refresh hnow]

end Cell

end Memo

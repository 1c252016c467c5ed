import Mathlib.Data.List.Chain
import CLogTest.Recursion.Machine
import CLogTest.Ackermann.Procedure

set_option autoImplicit false

/-! # The explicit-stack evaluation

`ackermann` evaluated without recursion: a stack of pending first arguments and a current value.
The machine visits exactly the pairs that `ackermann` logs, in the same order, stops with the empty
stack and leaves the value that `ackermann` returns (`stackMachine_run`). What is pending below the
top of the stack is never touched, so the statement is proved for any pending stack. -/

namespace CLogTest

/-- The explicit-stack machine: pop `a`, record `(a, v)` and act on the three branches of the
    recursion. It stops at the empty stack. -/
def stackMachine : Machine (List UInt32 × UInt32) (UInt32 × UInt32) where
  step
    | ([], _) => none
    | (a :: stack, v) =>
        some ((a, v),
          if a = 0 then (stack, v + 1)
          else if v = 0 then ((a - 1) :: stack, 1)
          else (a :: (a - 1) :: stack, v - 1))

/-- **The machine replays the recursion**, whatever is pending below its top of stack. -/
theorem stackMachine_run (m n : UInt32) (stack : List UInt32) :
    stackMachine.Run (m :: stack, n) (wordProc.calls (m, n)) (stack, wordProc.value (m, n)) := by
  induction m, n using words_induction generalizing stack with
  | zero n =>
      rw [wordCalls_zero, wordProc_value_zero]
      exact .step (by simp [stackMachine]) (.refl _)
  | of_zero m hm ih =>
      rw [wordCalls_of_zero hm, wordProc_value_of_zero hm]
      exact .step (by simp [stackMachine, hm]) (ih stack)
  | of_ne_zero m n hm hn ihInner ihOuter =>
      rw [wordCalls_of_ne_zero hm hn, wordProc_value_of_ne_zero hm hn]
      -- the inner call runs above the pending `m - 1`, the outer one pops it
      have hinner := ihInner ((m - 1) :: stack)
      have houter := ihOuter (wordProc.value (m, n - 1)) stack
      exact .step (by simp [stackMachine, hm, hn]) (hinner.trans houter)

theorem stackMachine_final (v : UInt32) : stackMachine.Final ([], v) := rfl

/-! ## Neighbours in the log -/

/-- The last call is the activation that returns the value. -/
theorem wordCalls_getLast (m n : UInt32) :
    (wordProc.calls (m, n)).getLast? = some (0, wordProc.value (m, n) - 1) := by
  induction m, n using words_induction with
  | zero n => simp [wordCalls_zero, wordProc_value_zero]
  | of_zero m hm ih =>
      rw [wordCalls_of_zero hm, List.getLast?_cons, ih, wordProc_value_of_zero hm, Option.getD_some]
  | of_ne_zero m n hm hn _ ihOuter =>
      rw [wordCalls_of_ne_zero hm hn, List.getLast?_cons, List.getLast?_append, ihOuter,
        wordProc_value_of_ne_zero hm hn]
      rfl

/-- What may follow a call in the log of `ackermann m n`: a call with first argument 0 returns, and
    the next call is on a lower row with the value returned. -/
def Follows (m : UInt32) (x y : UInt32 × UInt32) : Prop := x.1 = 0 → y.2 = x.2 + 1 ∧ y.1 < m

theorem Follows.of_ne_zero {m : UInt32} {x : UInt32 × UInt32} (hx : x.1 ≠ 0) (y : UInt32 × UInt32) :
    Follows m x y := fun h => absurd h hx

theorem pred_lt {m : UInt32} (hm : m ≠ 0) : m - 1 < m :=
  UInt32.lt_iff_toNat_lt.mpr (toNat_pred_lt hm)

theorem Follows.mono {m : UInt32} (hm : m ≠ 0) {x y : UInt32 × UInt32} (h : Follows (m - 1) x y) :
    Follows m x y := fun hx => ⟨(h hx).1, UInt32.lt_trans (h hx).2 (pred_lt hm)⟩

/-- **Neighbours in the log.** -/
theorem wordCalls_isChain (m n : UInt32) : (wordProc.calls (m, n)).IsChain (Follows m) := by
  induction m, n using words_induction with
  | zero n => rw [wordCalls_zero]; exact .singleton _
  | of_zero m hm ih =>
      rw [wordCalls_of_zero hm]
      exact (ih.imp fun _ _ h => h.mono hm).cons fun y _ => .of_ne_zero hm y
  | of_ne_zero m n hm hn ihInner ihOuter =>
      rw [wordCalls_of_ne_zero hm hn]
      have houter := (ihOuter (wordProc.value (m, n - 1))).imp fun _ _ h => h.mono hm
      refine (ihInner.append houter ?_).cons fun y _ => .of_ne_zero hm y
      -- where the log of the inner call ends and that of the outer call begins
      intro x hx y hy
      rw [wordCalls_getLast, Option.mem_def, Option.some.injEq] at hx
      rw [wordCalls_head, Option.mem_def, Option.some.injEq] at hy
      subst hx hy
      exact fun _ => ⟨by simp, pred_lt hm⟩

/-- **The log is the run of the explicit-stack evaluation.** The machine started at `([m], n)`
    records the pairs logged by `ackermann m n` and stops at the empty stack with the value
    returned, and no other run of it stops. -/
theorem ackermann_log_eq_machine {σ : Type*} (loggingFunc : UInt32 → UInt32 → σ → σ) (m n : UInt32)
    (s : σ) :
    (∀ es t, stackMachine.Run ([m], n) es t ∧ stackMachine.Final t
        ↔ es = callsWith loggingFunc m n s ∧ t = ([], (ackermann loggingFunc m n s).1))
      ∧ (callsWith loggingFunc m n s).head? = some (m, n)
      ∧ (callsWith loggingFunc m n s).getLast? = some (0, (ackermann loggingFunc m n s).1 - 1)
      ∧ ∀ pre b post, callsWith loggingFunc m n s = pre ++ (0, b) :: post → post ≠ [] →
          ∃ c rest, post = (c, b + 1) :: rest ∧ c < m := by
  have hlog : callsWith loggingFunc m n s = wordProc.calls (m, n) :=
    callsWith_eq_calls loggingFunc m n s
  have hr : (ackermann loggingFunc m n s).1 = wordProc.value (m, n) :=
    congrArg Prod.fst (ackermann_eq_foldl loggingFunc m n s)
  have hrun := stackMachine_run m n []
  rw [hlog, hr]
  refine ⟨?_, wordCalls_head (m, n), wordCalls_getLast m n, ?_⟩
  · intro es t
    constructor
    · rintro ⟨hes, ht⟩
      exact hes.unique ht hrun (stackMachine_final _)
    · rintro ⟨rfl, rfl⟩
      exact ⟨hrun, stackMachine_final _⟩
  · intro pre b post hsplit hpost
    obtain ⟨⟨c, v⟩, rest, rfl⟩ := List.exists_cons_of_ne_nil hpost
    have hfollows : Follows m (0, b) (c, v) :=
      List.isChain_iff_forall_rel_of_append_cons_cons.mp (wordCalls_isChain m n) hsplit
    obtain ⟨rfl, hlt⟩ := hfollows rfl
    exact ⟨c, rest, rfl, hlt⟩

end CLogTest

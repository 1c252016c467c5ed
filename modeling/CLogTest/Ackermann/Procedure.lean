import Mathlib.Computability.Ackermann
import CLogTest.Recursion.Procedure
import CLogTest.Shared.Funcs

set_option autoImplicit false

/-! # The recursion of `ackermann` as a procedure

The body of `ackermann` is written once over any counter type: at `UInt32` it is the procedure the C
code runs (`ackermann_eq_foldl`), at `ℕ` it is the recursion over unbounded naturals, whose value is
Mathlib's `ack` (`natProc_value`). -/

namespace CLogTest

/-- What one activation of `ackermann` does after logging. -/
def ackermannBody {α : Type} [DecidableEq α] [OfNat α 0] [OfNat α 1] [Add α] [Sub α] :
    α × α → Resume (α × α) α
  | (m, n) =>
      if m = 0 then .ret (n + 1)
      else if n = 0 then .call (m - 1, 1) .ret
      else .call (m, n - 1) fun r => .call (m - 1, r) .ret

/-- The recursion over a counter type: predecessors of non-zero counters get smaller. -/
def ackermannProc {α : Type} [DecidableEq α] [OfNat α 0] [OfNat α 1] [Add α] [Sub α] (size : α → ℕ)
    (hpred : ∀ x : α, x ≠ 0 → size (x - 1) < size x) : RecProc (α × α) α where
  body := ackermannBody
  rel := InvImage (Prod.Lex (· < ·) (· < ·)) fun a => (size a.1, size a.2)
  wf := InvImage.wf _ (WellFounded.prod_lex wellFounded_lt wellFounded_lt)
  below := by
    rintro ⟨m, n⟩
    simp only [ackermannBody]
    split_ifs with hm hn
    · trivial
    · exact ⟨Prod.Lex.left _ _ (hpred m hm), fun _ => trivial⟩
    · refine ⟨Prod.Lex.right _ (hpred n hn), fun _ => ?_⟩
      exact ⟨Prod.Lex.left _ _ (hpred m hm), fun _ => trivial⟩

/-- The recursion over `uint32_t`. -/
def wordProc : RecProc (UInt32 × UInt32) UInt32 :=
  ackermannProc UInt32.toNat fun _ h => toNat_pred_lt h

/-- The same recursion over unbounded naturals. -/
def natProc : RecProc (ℕ × ℕ) ℕ :=
  ackermannProc id fun _ h => Nat.sub_lt (Nat.pos_of_ne_zero h) Nat.one_pos

/-! ## The C function runs the 32-bit procedure -/

/-- One activation of the C function: log, then run the body. -/
theorem ackermann_unfold {σ : Type*} (loggingFunc : UInt32 → UInt32 → σ → σ) (a : UInt32 × UInt32)
    (s : σ) :
    ackermann loggingFunc a.1 a.2 s
      = (wordProc.body a).run (fun a s => ackermann loggingFunc a.1 a.2 s)
          (loggingFunc a.1 a.2 s) := by
  obtain ⟨m, n⟩ := a
  rw [ackermann]
  simp only [wordProc, ackermannProc, ackermannBody]
  split_ifs <;> rfl

/-- **The C function against the procedure.** For every logging function, `ackermann` returns the
    value of the 32-bit procedure and folds the logging function over its calls. -/
theorem ackermann_eq_foldl {σ : Type*} (loggingFunc : UInt32 → UInt32 → σ → σ) (m n : UInt32)
    (s : σ) :
    ackermann loggingFunc m n s
      = (wordProc.value (m, n),
          (wordProc.calls (m, n)).foldl (fun s a => loggingFunc a.1 a.2 s) s) :=
  wordProc.run_eq_foldl (fun s a => loggingFunc a.1 a.2 s)
    (fun a s => ackermann loggingFunc a.1 a.2 s) (ackermann_unfold loggingFunc) (m, n) s

/-- Recording does not disturb the logging function. -/
theorem foldl_recording {σ : Type*} (loggingFunc : UInt32 → UInt32 → σ → σ)
    (l : List (UInt32 × UInt32)) (s : σ) (calls : List (UInt32 × UInt32)) :
    l.foldl (fun s a => recording loggingFunc a.1 a.2 s) (s, calls)
      = (l.foldl (fun s a => loggingFunc a.1 a.2 s) s, calls ++ l) := by
  induction l generalizing s calls with
  | nil => simp
  | cons a l ih =>
      rw [List.foldl_cons, List.foldl_cons, recording, ih, List.append_assoc, List.singleton_append]

/-- Whatever the logging function, it is called on the calls of the 32-bit procedure. -/
theorem callsWith_eq_calls {σ : Type*} (loggingFunc : UInt32 → UInt32 → σ → σ) (m n : UInt32)
    (s : σ) : callsWith loggingFunc m n s = wordProc.calls (m, n) := by
  simp [callsWith, ackermann_eq_foldl, foldl_recording]

theorem loggedCalls_eq_calls (m n : UInt32) : loggedCalls m n = wordProc.calls (m, n) :=
  callsWith_eq_calls noLogging m n ()

theorem returned_eq_value (m n : UInt32) : returned m n = wordProc.value (m, n) := by
  simp [returned, ackermann_eq_foldl]

/-- Recording the calls of a logging function leaves its own state as it would be without. -/
theorem ackermann_recording {σ : Type*} (loggingFunc : UInt32 → UInt32 → σ → σ) (m n : UInt32)
    (s : σ) :
    (ackermann (recording loggingFunc) m n (s, [])).2.1 = (ackermann loggingFunc m n s).2 := by
  simp [ackermann_eq_foldl, foldl_recording]

/-- **Non-interference of the logger.** Whatever the logging function and its state, `ackermann`
    returns what it returns without logging, and the state is folded over the sequence of pairs
    that is logged without any state; two logging functions see the same calls. -/
theorem ackermann_logger_independent {σ σ' : Type*} (m n : UInt32)
    (loggingFunc : UInt32 → UInt32 → σ → σ) (s : σ)
    (loggingFunc' : UInt32 → UInt32 → σ' → σ') (s' : σ') :
    (ackermann loggingFunc m n s).1 = returned m n
      ∧ (ackermann loggingFunc m n s).2
          = (loggedCalls m n).foldl (fun s a => loggingFunc a.1 a.2 s) s
      ∧ (ackermann loggingFunc m n s).1 = (ackermann loggingFunc' m n s').1
      ∧ callsWith loggingFunc m n s = loggedCalls m n
      ∧ callsWith loggingFunc m n s = callsWith loggingFunc' m n s' := by
  have hcalls := callsWith_eq_calls loggingFunc m n s
  have hcalls' := callsWith_eq_calls loggingFunc' m n s'
  refine ⟨?_, ?_, ?_, ?_, ?_⟩
  · rw [ackermann_eq_foldl, returned_eq_value]
  · rw [ackermann_eq_foldl, loggedCalls_eq_calls]
  · rw [ackermann_eq_foldl, ackermann_eq_foldl]
  · rw [hcalls, loggedCalls_eq_calls]
  · rw [hcalls, hcalls']

/-! ## The calls of the 32-bit procedure, branch by branch -/

theorem wordProc_eval_zero (n : UInt32) : wordProc.eval (0, n) = (n + 1, .node (0, n) []) := by
  rw [RecProc.eval_eq]
  simp [wordProc, ackermannProc, ackermannBody, Resume.trees]

theorem wordProc_eval_of_zero {m : UInt32} (hm : m ≠ 0) :
    wordProc.eval (m, 0)
      = (wordProc.value (m - 1, 1), .node (m, 0) [wordProc.callTree (m - 1, 1)]) := by
  rw [RecProc.eval_eq]
  simp [wordProc, ackermannProc, ackermannBody, Resume.trees, hm, RecProc.value, RecProc.callTree]

theorem wordProc_eval_of_ne_zero {m n : UInt32} (hm : m ≠ 0) (hn : n ≠ 0) :
    wordProc.eval (m, n)
      = (wordProc.value (m - 1, wordProc.value (m, n - 1)),
          .node (m, n) [wordProc.callTree (m, n - 1),
            wordProc.callTree (m - 1, wordProc.value (m, n - 1))]) := by
  rw [RecProc.eval_eq]
  simp [wordProc, ackermannProc, ackermannBody, Resume.trees, hm, hn, RecProc.value,
    RecProc.callTree]

theorem wordProc_value_zero (n : UInt32) : wordProc.value (0, n) = n + 1 := by
  rw [RecProc.value, wordProc_eval_zero]

theorem wordProc_value_of_zero {m : UInt32} (hm : m ≠ 0) :
    wordProc.value (m, 0) = wordProc.value (m - 1, 1) := by
  rw [RecProc.value, wordProc_eval_of_zero hm]

theorem wordProc_value_of_ne_zero {m n : UInt32} (hm : m ≠ 0) (hn : n ≠ 0) :
    wordProc.value (m, n) = wordProc.value (m - 1, wordProc.value (m, n - 1)) := by
  rw [RecProc.value, wordProc_eval_of_ne_zero hm hn]

theorem wordCalls_zero (n : UInt32) : wordProc.calls (0, n) = [(0, n)] := by
  simp [RecProc.calls, RecProc.callTree, wordProc_eval_zero]

theorem wordCalls_of_zero {m : UInt32} (hm : m ≠ 0) :
    wordProc.calls (m, 0) = (m, 0) :: wordProc.calls (m - 1, 1) := by
  rw [RecProc.calls, RecProc.callTree, wordProc_eval_of_zero hm]
  simp [RecProc.calls]

theorem wordCalls_of_ne_zero {m n : UInt32} (hm : m ≠ 0) (hn : n ≠ 0) :
    wordProc.calls (m, n)
      = (m, n) :: (wordProc.calls (m, n - 1)
          ++ wordProc.calls (m - 1, wordProc.value (m, n - 1))) := by
  rw [RecProc.calls, RecProc.callTree, wordProc_eval_of_ne_zero hm hn]
  simp [RecProc.calls]

/-- The first call is the activation itself. -/
theorem wordCalls_head (a : UInt32 × UInt32) : (wordProc.calls a).head? = some a := by
  rw [RecProc.calls, RecProc.callTree, RecProc.eval_eq]
  simp

/-- The double induction of `ackermann`: a property of all arguments holds if every branch of the
    body passes it on from the calls it makes. Nothing is known of the inner result. -/
theorem words_induction {P : UInt32 → UInt32 → Prop} (zero : ∀ n, P 0 n)
    (of_zero : ∀ m, m ≠ 0 → P (m - 1) 1 → P m 0)
    (of_ne_zero : ∀ m n, m ≠ 0 → n ≠ 0 → P m (n - 1) → (∀ r, P (m - 1) r) → P m n)
    (m n : UInt32) : P m n := by
  suffices h : ∀ a : UInt32 × UInt32, P a.1 a.2 from h (m, n)
  intro a
  induction a using wordProc.wf.induction with
  | _ a ih =>
      obtain ⟨m, n⟩ := a
      by_cases hm : m = 0
      · subst hm
        exact zero n
      have hlower : ∀ r, P (m - 1) r :=
        fun r => ih (m - 1, r) (Prod.Lex.left _ _ (toNat_pred_lt hm))
      by_cases hn : n = 0
      · subst hn
        exact of_zero m hm (hlower 1)
      · exact of_ne_zero m n hm hn (ih (m, n - 1) (Prod.Lex.right _ (toNat_pred_lt hn))) hlower

/-! ## The recursion over unbounded naturals, branch by branch -/

theorem natProc_eval_zero (n : ℕ) : natProc.eval (0, n) = (n + 1, .node (0, n) []) := by
  rw [RecProc.eval_eq]
  simp [natProc, ackermannProc, ackermannBody, Resume.trees]

theorem natProc_eval_succ_zero (m : ℕ) :
    natProc.eval (m + 1, 0)
      = (natProc.value (m, 1), .node (m + 1, 0) [natProc.callTree (m, 1)]) := by
  rw [RecProc.eval_eq]
  simp [natProc, ackermannProc, ackermannBody, Resume.trees, RecProc.value, RecProc.callTree]

theorem natProc_eval_succ_succ (m n : ℕ) :
    natProc.eval (m + 1, n + 1)
      = (natProc.value (m, natProc.value (m + 1, n)),
          .node (m + 1, n + 1) [natProc.callTree (m + 1, n),
            natProc.callTree (m, natProc.value (m + 1, n))]) := by
  rw [RecProc.eval_eq]
  simp [natProc, ackermannProc, ackermannBody, Resume.trees, RecProc.value, RecProc.callTree]

end CLogTest

import CLogTest.Ackermann.Procedure
import CLogTest.Recursion.Emits
import CLogTest.Shared.World

set_option autoImplicit false

/-! # Test programs

A test program is a logging library together with the `main` that sets it up. What it writes during
a run is read off its `World`; `Backend.succeeds` reduces it to three facts about the library: what
the set-up leaves behind, what one call of the logging function emits, and that the tear-down
writes nothing. -/

namespace CLogTest

/-- A test program: the static storage of the program and its library, the environment in it, and
    what `main` passes to `run_test`. -/
structure Backend where
  /-- Static storage. -/
  State : Type
  /-- What the set-up hands to the tear-down. -/
  Handle : Type
  /-- Static storage at the start of the program. -/
  initial : World → State
  world : State → World
  /-- The environment that `main` builds from `argv`. -/
  testSetup : List (List Char) → TestSetup State Handle
  description : String

namespace Backend

variable (B : Backend)

/-- Run the program: `main` with the arguments `argv`, in a process that can start and join its
    thread. -/
def exec (clock : World → ℤ) (showTime : ℤ → String) (m n : UInt32) (argv : List (List Char))
    (w : World) : Exit × Option B.State :=
  runTest ⟨0, 0⟩ (clock ∘ B.world) showTime m n (B.testSetup argv) B.description (B.initial w)

/-- The texts that a run of the program adds to what was written before. -/
def messages (m n : UInt32) (argv : List (List Char)) (w : World) : Option (List String) :=
  (B.exec (fun _ => 0) toString m n argv w).2.map fun s =>
    (B.world s).payloads.drop w.payloads.length

/-- The messages do not depend on the clock. -/
theorem messages_eq_exec (clock : World → ℤ) (showTime : ℤ → String) (m n : UInt32)
    (argv : List (List Char)) (w : World) :
    (B.exec clock showTime m n argv w).2.map
        (fun s => (B.world s).payloads.drop w.payloads.length)
      = B.messages m n argv w := by
  unfold messages exec runTest timedAckermann
  simp only [ne_eq, not_true_eq_false, if_false]
  cases (B.testSetup argv).setupFunc (B.testSetup argv).logLevel (B.initial w) with
  | mk handle s => cases handle <;> rfl

/-- A run of the program that succeeds: it exits with 0 after it has printed what `ackermann m n`
    returns, and it has written `texts`. -/
structure Succeeds (m n : UInt32) (argv : List (List Char)) (w : World) (texts : List String) :
    Prop where
  report : ∀ (clock : World → ℤ) (showTime : ℤ → String), ∃ ticks,
    (B.exec clock showTime m n argv w).1
      = ⟨0, ["Starting " ++ B.description ++ " test...\n",
          B.description ++ ": runtime = " ++ showTime ticks ++ " s, result = " ++
            toString (returned m n).toNat ++ "\n", "Complete\n"], []⟩
  messages : B.messages m n argv w = some texts

/-- **When a run succeeds.** The set-up succeeds in a state that satisfies `Inv`, without writing;
    from there each call of the logging function emits `out`; the tear-down writes nothing. -/
theorem succeeds {m n : UInt32} {argv : List (List Char)} {w : World} {s₀ : B.State}
    (handle : B.Handle) (Inv : B.State → Prop) (out : UInt32 × UInt32 → List String)
    (hsetup : (B.testSetup argv).setupFunc (B.testSetup argv).logLevel (B.initial w)
      = (some handle, s₀))
    (hinv : Inv s₀) (hwritten : (B.world s₀).payloads = w.payloads)
    (hlog : ∀ a, Emits Inv (fun s => (B.world s).payloads)
      ((B.testSetup argv).loggingFunc a.1 a.2) (out a))
    (hdown : ∀ s, (B.world ((B.testSetup argv).tearDownFunc handle s)).payloads
      = (B.world s).payloads) :
    B.Succeeds m n argv w ((loggedCalls m n).flatMap out) := by
  have hrun := (Emits.foldl hlog (loggedCalls m n)).trace_eq s₀ hinv
  constructor
  · intro clock showTime
    unfold exec runTest timedAckermann
    simp only [ne_eq, not_true_eq_false, if_false, hsetup, ackermann_eq_foldl, returned_eq_value]
    exact ⟨_, rfl⟩
  · unfold messages exec runTest timedAckermann
    simp only [ne_eq, not_true_eq_false, if_false, hsetup, Option.map_some, Option.some.injEq]
    rw [hdown, ackermann_eq_foldl, ← loggedCalls_eq_calls, hrun, hwritten, List.drop_left]

end Backend

/-! ## Two messages per call -/

/-- How many of the two messages of a call are emitted. -/
def emitted (first second : Prop) [Decidable first] [Decidable second] : ℕ :=
  (if first then 1 else 0) + (if second then 1 else 0)

theorem replicate_emitted {α : Type*} (first second : Prop) [Decidable first] [Decidable second]
    (x : α) :
    (if first then [x] else []) ++ (if second then [x] else [])
      = List.replicate (emitted first second) x := by
  unfold emitted
  split <;> split <;> rfl

/-- The text of every call that `ackermann m n` logs, `k` times each. -/
def repeated (k : ℕ) (m n : UInt32) : List String :=
  (loggedCalls m n).flatMap fun a => List.replicate k (payload a.1 a.2)

theorem length_repeated (k : ℕ) (m n : UInt32) :
    (repeated k m n).length = (loggedCalls m n).length * k := by
  simp [repeated, List.length_flatMap, List.map_const']

/-- The length tells how often each call is repeated, since there is at least one call. -/
theorem length_repeated_inj {k k' : ℕ} (m n : UInt32) :
    (repeated k m n).length = (repeated k' m n).length ↔ k = k' := by
  have hcall : loggedCalls m n ≠ [] := by
    rw [loggedCalls_eq_calls]
    exact CallTree.visits_ne_nil _
  rw [length_repeated, length_repeated]
  exact Nat.mul_right_inj (List.length_pos_iff.mpr hcall).ne'

end CLogTest

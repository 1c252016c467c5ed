import Mathlib.Data.Int.Notation

set_option autoImplicit false

/-! # The shared test harness (`src/shared/funcs.c`, `src/shared/types.h`)

Every test program sets up a logger, computes the Ackermann function while logging each activation,
tears the logger down and reports the result. The logger is an effect on a state `σ` — the static
variables of the logging library and what it has written — so the functions below are generic in `σ`
and in the value `τ` that the set-up hands to the tear-down (`void*` in the source). -/

namespace CLogTest

/-- `ACKERMANN_M`: the first argument of the benchmarked call. -/
def ackermannM : UInt32 := 3

/-- `ACKERMANN_N`: the second argument of the benchmarked call. -/
def ackermannN : UInt32 := 10

theorem toNat_ne_zero {x : UInt32} (h : x ≠ 0) : x.toNat ≠ 0 :=
  fun h0 => h (UInt32.toNat_inj.mp h0)

/-- The predecessor of a non-zero `uint32_t` does not wrap. -/
theorem toNat_pred {x : UInt32} (h : x ≠ 0) : (x - 1).toNat = x.toNat - 1 :=
  UInt32.toNat_sub_of_le x 1 (UInt32.le_iff_toNat_le.mpr (Nat.pos_of_ne_zero (toNat_ne_zero h)))

theorem toNat_pred_lt {x : UInt32} (h : x ≠ 0) : (x - 1).toNat < x.toNat := by
  have h0 : x.toNat ≠ 0 := toNat_ne_zero h
  rw [toNat_pred h]
  omega

variable {σ τ : Type*}

/-- `ackermann`: logs its arguments, then recurs; `n + 1` wraps modulo 2³². -/
def ackermann (loggingFunc : UInt32 → UInt32 → σ → σ) (m n : UInt32) (s : σ) : UInt32 × σ :=
  let s := loggingFunc m n s
  if hm : m = 0 then
    (n + 1, s)
  else if hn : n = 0 then
    ackermann loggingFunc (m - 1) 1 s
  else
    let (r, s) := ackermann loggingFunc m (n - 1) s
    ackermann loggingFunc (m - 1) r s
termination_by (m.toNat, n.toNat)
decreasing_by
  · exact Prod.Lex.left _ _ (toNat_pred_lt hm)
  · exact Prod.Lex.right _ (toNat_pred_lt hn)
  · exact Prod.Lex.left _ _ (toNat_pred_lt hm)

/-! ## Test set-ups and their run -/

/-- `TestSetup`: the environment of one test. A set-up that calls `pthread_exit(NULL)` returns
    `none`. -/
structure TestSetup (σ τ : Type*) where
  /-- Set up the logger. -/
  setupFunc : UInt8 → σ → Option τ × σ
  /-- Logging logic. -/
  loggingFunc : UInt32 → UInt32 → σ → σ
  /-- Tear down the logger. -/
  tearDownFunc : τ → σ → σ
  /-- Logging level, passed to the set-up function. -/
  logLevel : UInt8

/-- `TimingResult`. The time is left in clock ticks: the division by `CLOCKS_PER_SEC` is a
    `double`. -/
structure TimingResult where
  time : ℤ
  a : UInt32

/-- `timed_ackermann`, for any arguments of the benchmarked call. `none` is the `NULL` that
    `pthread_exit` leaves for the joining thread. -/
def timedAckermann (clock : σ → ℤ) (m n : UInt32) (testSetup : TestSetup σ τ) (s : σ) :
    Option TimingResult × σ :=
  match testSetup.setupFunc testSetup.logLevel s with
  | (none, s) => (none, s)
  | (some testState, s) =>
      let tStart := clock s
      let (a, s) := ackermann testSetup.loggingFunc m n s
      let tEnd := clock s
      let s := testSetup.tearDownFunc testState s
      (some ⟨tEnd - tStart, a⟩, s)

/-- What the operating system answers to `pthread_create` and `pthread_join`: 0 on success. -/
structure Threads where
  create : ℤ
  join : ℤ

/-- How a test program ends: exit code and what it printed. -/
structure Exit where
  code : ℤ
  stdout : List String
  stderr : List String

/-- `_report_failure`. -/
def reportFailure (stdout : List String) (msg : String) : Exit :=
  ⟨-1, stdout, ["ERROR: " ++ msg ++ "\n"]⟩

/-- `run_test`. `showTime` is `printf`'s rendering of the run time by `%.3f`. The final state is
    `none` when the thread was not joined, as it may then be anywhere in its run. -/
def runTest (threads : Threads) (clock : σ → ℤ) (showTime : ℤ → String) (m n : UInt32)
    (testSetup : TestSetup σ τ) (description : String) (s : σ) : Exit × Option σ :=
  let stdout := ["Starting " ++ description ++ " test...\n"]
  if threads.create ≠ 0 then
    (reportFailure stdout "Cannot create thread", some s)
  else if threads.join ≠ 0 then
    (reportFailure stdout "Thread failure", none)
  else
    match timedAckermann clock m n testSetup s with
    | (none, s) => (reportFailure stdout "Execution failure", some s)
    | (some result, s) =>
        (⟨0, stdout ++ [description ++ ": runtime = " ++ showTime result.time ++ " s, result = " ++
            toString result.a.toNat ++ "\n", "Complete\n"], []⟩, some s)

/-- `no_setup`. -/
def noSetup (_l : UInt8) (s : σ) : Option Unit × σ := (some (), s)

/-- `no_logging`. -/
def noLogging (_m _n : UInt32) (s : σ) : σ := s

/-- `no_tear_down`. -/
def noTearDown (_arg : τ) (s : σ) : σ := s

/-! ## Observing the logging calls -/

/-- A logging function that also records its calls, in order. -/
def recording (loggingFunc : UInt32 → UInt32 → σ → σ) (m n : UInt32)
    (s : σ × List (UInt32 × UInt32)) : σ × List (UInt32 × UInt32) :=
  (loggingFunc m n s.1, s.2 ++ [(m, n)])

/-- The pairs that `ackermann m n` passes to `loggingFunc`, in order. -/
def callsWith (loggingFunc : UInt32 → UInt32 → σ → σ) (m n : UInt32) (s : σ) :
    List (UInt32 × UInt32) :=
  (ackermann (recording loggingFunc) m n (s, [])).2.2

/-- The pairs logged by `ackermann m n`, recorded around the logging function of the control. -/
def loggedCalls (m n : UInt32) : List (UInt32 × UInt32) :=
  callsWith noLogging m n ()

/-- The value returned by `ackermann m n`, with the logging function of the control. -/
def returned (m n : UInt32) : UInt32 := (ackermann noLogging m n ()).1

end CLogTest

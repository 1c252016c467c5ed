import CLogTest.Shared.Backend

set_option autoImplicit false

/-! # log.c (`src/log-c/log.c`, `src/log-c.c`)

Every message is offered to `stderr`, unless the library is quiet, and to a table of callbacks, each
with a level of its own. The program silences `stderr` and registers one file, so the level of that
one callback decides (`logLog_emits`). -/

namespace CLogTest.LogC

inductive LogLevel
  | trace
  | debug
  | info
  | warn
  | error
  | fatal

/-- The value of the enumerator, the `int` that the library passes around. -/
def LogLevel.toInt : LogLevel → ℤ
  | trace => 0
  | debug => 1
  | info => 2
  | warn => 3
  | error => 4
  | fatal => 5

def levelStrings : List String := ["TRACE", "DEBUG", "INFO", "WARN", "ERROR", "FATAL"]

def maxCallbacks : ℕ := 32

/-- `log_Event`; `udata` is the stream, named by its path. -/
structure LogEvent where
  text : String
  udata : String
  level : ℤ

structure Callback where
  fn : LogEvent → World → World
  udata : String
  level : ℤ

/-- `L`. The callbacks are the slots of the array in use, which has `MAX_CALLBACKS` of them. No lock
    is ever set. -/
structure State where
  world : World
  level : ℤ
  quiet : Bool
  callbacks : { l : List Callback // l.length ≤ maxCallbacks }

def initial (w : World) : State := ⟨w, 0, false, [], Nat.zero_le _⟩

/-! ## The library -/

/-- `file_callback` and, but for the format of the time, `stdout_callback`. -/
def fileCallback (ev : LogEvent) (w : World) : World :=
  let (_, w) := w.print
  let (_, w) := w.printMessage ⟨ev.udata, levelStrings.getD ev.level.toNat "", ev.text⟩
  let (_, w) := w.print
  w

def stdoutCallback : LogEvent → World → World := fileCallback

/-- `log_set_quiet`. -/
def logSetQuiet (enable : Bool) (s : State) : State := { s with quiet := enable }

/-- `log_add_callback`: 0, or -1 when no slot is free. -/
def logAddCallback (fn : LogEvent → World → World) (udata : String) (level : ℤ) (s : State) :
    ℤ × State :=
  if h : s.callbacks.1.length < maxCallbacks then
    (0, { s with callbacks := ⟨s.callbacks.1 ++ [⟨fn, udata, level⟩], by
      rw [List.length_append, List.length_singleton]
      exact h⟩ })
  else (-1, s)

/-- `log_add_fp`. -/
def logAddFp (fp : String) (level : ℤ) (s : State) : ℤ × State :=
  logAddCallback fileCallback fp level s

/-- One round of the loop of `log_log`. -/
def offer (level : ℤ) (text : String) (w : World) (cb : Callback) : World :=
  if level ≥ cb.level then cb.fn ⟨text, cb.udata, level⟩ w else w

/-- `log_log`. -/
def logLog (level : LogLevel) (text : String) (s : State) : State :=
  let w :=
    if s.quiet = false ∧ level.toInt ≥ s.level then
      stdoutCallback ⟨text, "stderr", level.toInt⟩ s.world
    else s.world
  { s with world := s.callbacks.1.foldl (offer level.toInt text) w }

/-! ## The test program -/

/-- `_log_c_setup`. `errno` is set when `fopen` fails. -/
def logCSetup (logLevel : UInt8) (s : State) : Option String × State :=
  let fileHandle := "logs/log-c.txt"
  let (ok, world) := s.world.attempt
  let s := { s with world := world }
  if ok then
    let s := logSetQuiet true s
    let (_, s) := logAddFp fileHandle logLevel.toNat s
    (some fileHandle, s)
  else (none, s)

/-- `_log_c_logging`. -/
def logCLogging (m n : UInt32) (s : State) : State :=
  let s := logLog .debug (payload m n) s
  logLog .warn (payload m n) s

/-- `_log_c_tear_down`: `fclose`. -/
def logCTearDown (_stream : String) (s : State) : State := { s with world := s.world.attempt.2 }

/-- `main`. -/
def backend : Backend where
  State := State
  Handle := String
  initial := initial
  world := State.world
  testSetup argv :=
    { setupFunc := logCSetup
      loggingFunc := logCLogging
      tearDownFunc := logCTearDown
      logLevel := argLevel argv }
  description := "log.c"

/-! ## What is logged -/

/-- The library is quiet and logs from `level` on to the file `udata`, in an environment that does
    not fail. -/
structure Ready (udata : String) (level : ℤ) (s : State) : Prop where
  reliable : s.world.Reliable
  quiet : s.quiet = true
  callbacks : s.callbacks.1 = [⟨fileCallback, udata, level⟩]

theorem fileCallback_world (ev : LogEvent) {w : World} (hw : w.Reliable) :
    (fileCallback ev w).Reliable ∧ (fileCallback ev w).payloads = w.payloads ++ [ev.text] :=
  World.printMessage_between ⟨ev.udata, levelStrings.getD ev.level.toNat "", ev.text⟩ hw

/-- **The level of the callback decides.** -/
theorem logLog_emits (udata : String) (threshold : ℤ) (level : LogLevel) (text : String) :
    Emits (Ready udata threshold) (fun s => s.world.payloads) (logLog level text)
      (if threshold ≤ level.toInt then [text] else []) := by
  have hwrite : Emits (Ready udata threshold) (fun s => s.world.payloads)
      (fun s => { s with world := fileCallback ⟨text, udata, level.toInt⟩ s.world }) [text] := by
    refine .of_forall fun s hs => ?_
    obtain ⟨hrel, hwritten⟩ := fileCallback_world ⟨text, udata, level.toInt⟩ hs.reliable
    exact ⟨⟨hrel, hs.quiet, hs.callbacks⟩, hwritten⟩
  refine (Emits.ite _ fun _ => hwrite).congr ?_
  intro s hs
  have hquiet : ¬ (s.quiet = false ∧ level.toInt ≥ s.level) := by simp [hs.quiet]
  unfold logLog
  rw [if_neg hquiet, hs.callbacks]
  dsimp only
  rw [List.foldl_cons, List.foldl_nil, offer]
  by_cases hlevel : threshold ≤ level.toInt
  · rw [if_pos hlevel, if_pos hlevel]
  · rw [if_neg hlevel, if_neg hlevel]

/-- The set-up of the program. -/
theorem logCSetup_ready (logLevel : UInt8) {w : World} (hw : w.Reliable) :
    ∃ fp s, logCSetup logLevel (initial w) = (some fp, s) ∧ Ready fp logLevel.toNat s
      ∧ s.world.payloads = w.payloads := by
  have hopen : (initial w).world.attempt.1 = true := World.attempt_of_reliable hw
  unfold logCSetup
  simp only [hopen, if_true]
  exact ⟨_, _, rfl, ⟨w.attempt_silent.reliable hw, rfl, rfl⟩, rfl⟩

/-- **What the program writes**, for every command line. -/
theorem succeeds (m n : UInt32) (argv : List (List Char)) {w : World} (hw : w.Reliable) :
    backend.Succeeds m n argv w
      (repeated (emitted ((argLevel argv).toNat ≤ 1) ((argLevel argv).toNat ≤ 3)) m n) := by
  obtain ⟨fp, s, hsetup, hs, hwritten⟩ := logCSetup_ready (argLevel argv) hw
  refine backend.succeeds fp _ _ hsetup hs hwritten ?_ (fun _ => rfl)
  intro a
  have hlog := (logLog_emits fp (argLevel argv).toNat .debug (payload a.1 a.2)).comp
    (logLog_emits fp (argLevel argv).toNat .warn (payload a.1 a.2))
  simp only [LogLevel.toInt, Nat.cast_le_one, Nat.cast_le_ofNat] at hlog
  rw [← replicate_emitted]
  exact hlog

end CLogTest.LogC

import CLogTest.Shared.Backend

set_option autoImplicit false

/-! # zf_log (`src/zf_log/zf_log.h`, `src/zf_log/zf_log.c`, `src/zf_log.c`)

A message passes two gates, both in the logging macro: the level fixed when the program is compiled
and the output level set at run time. The levels start at 1, so `main` adds 1 to the log level of
the command line, in `uint8_t`; of its two messages the lower one is at the compile-time level,
which therefore disables neither (`zfLogWrite_emits`). -/

namespace CLogTest.ZfLog

inductive LogLevel
  | verbose
  | debug
  | info
  | warn
  | error
  | fatal

def LogLevel.toInt : LogLevel → ℤ
  | verbose => 1
  | debug => 2
  | info => 3
  | warn => 4
  | error => 5
  | fatal => 6

def lvlChar : LogLevel → String
  | .verbose => "V"
  | .debug => "D"
  | .info => "I"
  | .warn => "W"
  | .error => "E"
  | .fatal => "F"

/-- `_ZF_LOG_LEVEL`: the build defines neither the level nor `NDEBUG`. -/
def zfLogLevel : LogLevel := .debug

def putCtx : BitVec 32 := 1#32

def putMsg : BitVec 32 := 8#32

def putStd : BitVec 32 := 0xffff#32

/-- `zf_log_message`: the parts that the mask lets through. -/
structure ZfMessage where
  ctx : String
  msg : String

/-- `zf_log_output`; the argument of the callback is the stream, named by its path. -/
structure Output where
  mask : BitVec 32
  arg : String
  callback : ZfMessage → String → World → World

structure State where
  world : World
  globalOutput : Output
  globalOutputLvl : ℤ

/-! ## The library -/

def outStderrCallback (msg : ZfMessage) (_arg : String) (w : World) : World :=
  (w.printMessage ⟨"stderr", msg.ctx, msg.msg⟩).2

def initial (w : World) : State := ⟨w, ⟨putStd, "", outStderrCallback⟩, 0⟩

/-- `ZF_LOG_ENABLED`. -/
def zfLogEnabled (lvl : LogLevel) : Bool := lvl.toInt ≥ zfLogLevel.toInt

/-- `ZF_LOG_ON`. -/
def zfLogOn (lvl : LogLevel) (s : State) : Bool :=
  zfLogEnabled lvl && decide (lvl.toInt ≥ s.globalOutputLvl)

def zfLogSetOutputLevel (lvl : ℤ) (s : State) : State := { s with globalOutputLvl := lvl }

def zfLogSetOutputV (mask : BitVec 32) (arg : String)
    (callback : ZfMessage → String → World → World) (s : State) : State :=
  { s with globalOutput := ⟨mask, arg, callback⟩ }

/-- `_zf_log_write_imp`, without tag, source location and memory block. -/
def zfLogWriteImp (lvl : LogLevel) (text : String) (s : State) : State :=
  let mask := s.globalOutput.mask
  let msg : ZfMessage :=
    { ctx := if mask &&& putCtx ≠ 0 then lvlChar lvl else ""
      msg := if mask &&& putMsg ≠ 0 then text else "" }
  { s with world := s.globalOutput.callback msg s.globalOutput.arg s.world }

/-- `ZF_LOG_WRITE`. -/
def zfLogWrite (lvl : LogLevel) (text : String) (s : State) : State :=
  if zfLogOn lvl s then zfLogWriteImp lvl text s else s

/-! ## The test program -/

/-- `_zf_file_output_callback`. -/
def zfFileOutputCallback (msg : ZfMessage) (arg : String) (w : World) : World :=
  (w.printMessage ⟨arg, msg.ctx, msg.msg⟩).2

/-- `_zf_log_setup`. -/
def zfLogSetup (logLevel : UInt8) (s : State) : Option String × State :=
  let fileHandle := "logs/zf_log.txt"
  let (ok, world) := s.world.attempt
  let s := { s with world := world }
  if ok then
    let s := zfLogSetOutputV putStd fileHandle zfFileOutputCallback s
    (some fileHandle, zfLogSetOutputLevel logLevel.toNat s)
  else (none, s)

/-- `ZF_LOGD` and `ZF_LOGW`: nothing is left of a macro whose level is disabled. -/
def zfLog (lvl : LogLevel) (text : String) (s : State) : State :=
  if zfLogEnabled lvl then zfLogWrite lvl text s else s

/-- `_zf_log_logging`. -/
def zfLogLogging (m n : UInt32) (s : State) : State :=
  let s := zfLog .debug (payload m n) s
  zfLog .warn (payload m n) s

/-- The log level that `main` computes: `(argc == 1) ? 1 : ((uint8_t)atoi(argv[1]) + 1)`. -/
def mainLevel : List (List Char) → UInt8
  | _ :: arg :: _ => UInt8.ofInt (atoi arg) + 1
  | _ => 1

/-- `main`. The tear-down that closes the file is not used. -/
def backend : Backend where
  State := State
  Handle := String
  initial := initial
  world := State.world
  testSetup argv :=
    { setupFunc := zfLogSetup
      loggingFunc := zfLogLogging
      tearDownFunc := noTearDown
      logLevel := mainLevel argv }
  description := "zf_log"

/-! ## What is logged -/

theorem mainLevel_eq (argv : List (List Char)) : mainLevel argv = argLevel argv + 1 := by
  rcases argv with _ | ⟨prog, _ | ⟨arg, rest⟩⟩ <;> rfl

/-- The output level is `lvl` and the output goes to a file, in an environment that does not
    fail. -/
structure Ready (lvl : ℤ) (s : State) : Prop where
  reliable : s.world.Reliable
  level : s.globalOutputLvl = lvl
  output : ∃ arg, s.globalOutput = ⟨putStd, arg, zfFileOutputCallback⟩

/-- The standard mask lets the message through. -/
theorem zfLogWriteImp_emits (threshold : ℤ) (lvl : LogLevel) (text : String) :
    Emits (Ready threshold) (fun s => s.world.payloads) (zfLogWriteImp lvl text) [text] := by
  refine .of_forall fun s hs => ?_
  obtain ⟨arg, hout⟩ := hs.output
  have hctx : putStd &&& putCtx ≠ 0 := by decide
  have hmsg : putStd &&& putMsg ≠ 0 := by decide
  have hworld : (zfLogWriteImp lvl text s).world
      = (s.world.printMessage ⟨arg, lvlChar lvl, text⟩).2 := by
    unfold zfLogWriteImp
    rw [hout]
    dsimp only
    rw [if_pos hctx, if_pos hmsg]
    rfl
  obtain ⟨-, hrel, hwritten⟩ := World.printMessage_of_reliable ⟨arg, lvlChar lvl, text⟩ hs.reliable
  rw [hworld, hwritten]
  refine ⟨⟨?_, hs.level, hs.output⟩, rfl⟩
  rw [hworld]
  exact hrel

/-- **The output level decides**, for levels that the build does not disable. -/
theorem zfLog_emits (threshold : ℤ) (lvl : LogLevel) (h : zfLogEnabled lvl = true) (text : String) :
    Emits (Ready threshold) (fun s => s.world.payloads) (zfLog lvl text)
      (if threshold ≤ lvl.toInt then [text] else []) := by
  refine (Emits.ite _ fun _ => zfLogWriteImp_emits threshold lvl text).congr ?_
  intro s hs
  unfold zfLog zfLogWrite zfLogOn
  simp [h, hs.level]

/-- The set-up of the program. -/
theorem zfLogSetup_ready (logLevel : UInt8) {w : World} (hw : w.Reliable) :
    ∃ fp s, zfLogSetup logLevel (initial w) = (some fp, s) ∧ Ready logLevel.toNat s
      ∧ s.world.payloads = w.payloads := by
  have hopen : (initial w).world.attempt.1 = true := World.attempt_of_reliable hw
  unfold zfLogSetup
  simp only [hopen, if_true]
  exact ⟨_, _, rfl, ⟨w.attempt_silent.reliable hw, rfl, _, rfl⟩, rfl⟩

/-- **What the program writes**, for every command line. -/
theorem succeeds (m n : UInt32) (argv : List (List Char)) {w : World} (hw : w.Reliable) :
    backend.Succeeds m n argv w
      (repeated
          (emitted ((argLevel argv + 1).toNat ≤ 2) ((argLevel argv + 1).toNat ≤ 4)) m n) := by
  rw [← mainLevel_eq]
  obtain ⟨fp, s, hsetup, hs, hwritten⟩ := zfLogSetup_ready (mainLevel argv) hw
  refine backend.succeeds fp _ _ hsetup hs hwritten ?_ (fun _ => rfl)
  intro a
  have hlog := (zfLog_emits (mainLevel argv).toNat .debug rfl (payload a.1 a.2)).comp
    (zfLog_emits (mainLevel argv).toNat .warn rfl (payload a.1 a.2))
  simp only [LogLevel.toInt, Nat.cast_le_ofNat] at hlog
  rw [← replicate_emitted]
  exact hlog

end CLogTest.ZfLog

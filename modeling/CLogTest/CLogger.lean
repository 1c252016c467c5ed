import CLogTest.Shared.Backend

set_option autoImplicit false

/-! # c-logger (`src/c-logger/logger.c`, `src/c-logger.c`)

A message is logged when its level reaches the one set by `logger_setLevel`. The file is rotated
when it has grown to its maximal size: the old files are shifted by one name and the file is opened
again. In an environment where every call succeeds no rotation loses a message, whatever the sizes
the environment reports, so the threshold alone decides (`loggerLog_emits`). -/

namespace CLogTest.CLogger

inductive LogLevel
  | trace
  | debug
  | info
  | warn
  | error
  | fatal

/-- The value of the enumerator. -/
def LogLevel.toNat : LogLevel → ℕ
  | trace => 0
  | debug => 1
  | info => 2
  | warn => 3
  | error => 4
  | fatal => 5

/-- `getLevelChar`. -/
def getLevelChar : LogLevel → String
  | .trace => "T"
  | .debug => "D"
  | .info => "I"
  | .warn => "W"
  | .error => "E"
  | .fatal => "F"

def kConsoleLogger : ℕ := 1

def kFileLogger : ℕ := 2

def kMaxFileNameLen : ℕ := 255

def kDefaultMaxFileSize : ℤ := 1048576

/-- `s_flog`, an open stream being named by its path. -/
structure FileLogger where
  output : Option String
  filename : String
  maxFileSize : ℤ
  maxBackupFiles : UInt8
  currentFileSize : ℤ

/-- The static variables of `logger.c`. `sLogLevel` is any number: the set-up casts to
    `LogLevel`. -/
structure State where
  world : World
  sClog : Option String
  sFlog : FileLogger
  sLogger : ℕ
  sLogLevel : ℕ
  sInitialized : Bool

def initial (w : World) : State where
  world := w
  sClog := none
  sFlog := ⟨none, "", 0, 0, 0⟩
  sLogger := 0
  sLogLevel := LogLevel.info.toNat
  sInitialized := false

/-! ## The library -/

/-- `getFileSize`. -/
def getFileSize (w : World) : ℤ × World :=
  let (ok, w) := w.attempt
  if ok then
    let (size, w) := w.ask
    (size, w)
  else (0, w)

/-- `logger_initFileLogger`. Both early returns follow a failing assertion. -/
def loggerInitFileLogger (filename : Option String) (maxFileSize : ℤ) (maxBackupFiles : UInt8)
    (s : State) : Bool × State :=
  match filename with
  | none => (false, s)
  | some filename =>
      if kMaxFileNameLen < filename.utf8ByteSize then (false, s)
      else
        let (ok, world) := s.world.attempt
        if ok then
          let (size, world) := getFileSize world
          (true, { s with
            world := world
            sInitialized := true
            sFlog :=
              { output := some filename
                filename := filename
                maxFileSize := if 0 < maxFileSize then maxFileSize else kDefaultMaxFileSize
                maxBackupFiles := maxBackupFiles
                currentFileSize := size }
            sLogger := s.sLogger ||| kFileLogger })
        else
          (false, { s with
            world := world.complain ("ERROR: logger: Failed to open file: `" ++ filename ++ "`\n")
            sInitialized := true
            sFlog := { s.sFlog with output := none } })

/-- `logger_setLevel`. -/
def loggerSetLevel (level : ℕ) (s : State) : State := { s with sLogLevel := level }

/-- `logger_isEnabled`. -/
def loggerIsEnabled (level : LogLevel) (s : State) : Bool := s.sLogLevel ≤ level.toNat

def hasFlag (flags flag : ℕ) : Bool := flags &&& flag = flag

/-- `getBackupFileName`. -/
def getBackupFileName (basename : String) (index : ℕ) : String :=
  if 0 < index then basename ++ "." ++ toString index else basename

/-- A call on a file that exists, with a complaint when the call fails. -/
def ifExists (complaint : String) (w : World) : World :=
  let (exist, w) := w.attempt
  if exist then
    let (ok, w) := w.attempt
    if ok then w else w.complain complaint
  else w

/-- The loop of `rotateLogFiles`: shift the files `i - 1`, …, 0 by one name. -/
def shiftBackups (filename : String) : ℕ → World → World
  | 0, w => w
  | i + 1, w =>
      let src := getBackupFileName filename i
      let dst := getBackupFileName filename (i + 1)
      let w := ifExists ("ERROR: logger: Failed to remove file: `" ++ dst ++ "`\n") w
      let w := ifExists
        ("ERROR: logger: Failed to rename file: `" ++ src ++ "` -> `" ++ dst ++ "`\n") w
      shiftBackups filename i w

/-- `rotateLogFiles`. It closes the stream first, which is undefined after a rotation that failed to
    open the file again. -/
def rotateLogFiles (s : State) : Bool × State :=
  if s.sFlog.currentFileSize < s.sFlog.maxFileSize then (s.sFlog.output.isSome, s)
  else
    let world := shiftBackups s.sFlog.filename s.sFlog.maxBackupFiles.toNat s.world
    let (ok, world) := world.attempt
    if ok then
      let (size, world) := getFileSize world
      (true, { s with
        world := world
        sFlog := { s.sFlog with output := some s.sFlog.filename, currentFileSize := size } })
    else
      (false, { s with
        world := world.complain
          ("ERROR: logger: Failed to open file: `" ++ s.sFlog.filename ++ "`\n")
        sFlog := { s.sFlog with output := none } })

/-- `vflog`: the number of bytes written. Flushing, which writes nothing new, is left out. -/
def vflog (fp levelc text : String) (w : World) : ℤ × World :=
  let (size₁, w) := w.print
  let (size₂, w) := w.printMessage ⟨fp, levelc, text⟩
  let (size₃, w) := w.print
  (size₁.getD 0 + size₂.getD 0 + size₃.getD 0, w)

/-- `logger_log`. The early return follows a failing assertion. -/
def loggerLog (level : LogLevel) (text : String) (s : State) : State :=
  if s.sLogger = 0 ∨ s.sInitialized = false then s
  else if loggerIsEnabled level s = false then s
  else
    let levelc := getLevelChar level
    let s :=
      if hasFlag s.sLogger kConsoleLogger then
        { s with world := (vflog (s.sClog.getD "") levelc text s.world).2 }
      else s
    if hasFlag s.sLogger kFileLogger then
      let (ok, s) := rotateLogFiles s
      if ok then
        let (size, world) := vflog (s.sFlog.output.getD "") levelc text s.world
        { s with
          world := world
          sFlog := { s.sFlog with currentFileSize := s.sFlog.currentFileSize + size } }
      else s
    else s

/-! ## The test program -/

def maxFileSize : ℤ := 26214400

def maxNumFiles : UInt8 := 255

/-- `_c_logger_setup`. -/
def cLoggerSetup (logLevel : UInt8) (s : State) : Option Unit × State :=
  let (ok, s) := loggerInitFileLogger (some "logs/c-logger.txt") maxFileSize maxNumFiles s
  if ok then (some (), loggerSetLevel logLevel.toNat s) else (none, s)

/-- `_c_logger_logging`. -/
def cLoggerLogging (m n : UInt32) (s : State) : State :=
  let s := loggerLog .debug (payload m n) s
  loggerLog .warn (payload m n) s

/-- `main`. -/
def backend : Backend where
  State := State
  Handle := Unit
  initial := initial
  world := State.world
  testSetup argv :=
    { setupFunc := cLoggerSetup
      loggingFunc := cLoggerLogging
      tearDownFunc := noTearDown
      logLevel := argLevel argv }
  description := "c-logger"

/-! ## What is logged -/

/-- The file logger is set up with threshold `level`, in an environment that does not fail. -/
structure Ready (level : ℕ) (s : State) : Prop where
  reliable : s.world.Reliable
  initialized : s.sInitialized = true
  logger : s.sLogger = kFileLogger
  threshold : s.sLogLevel = level
  output : s.sFlog.output.isSome

theorem getFileSize_silent (w : World) : w.Silent (getFileSize w).2 := by
  unfold getFileSize
  dsimp only
  split
  · exact w.attempt_silent.trans (World.ask_silent _)
  · exact w.attempt_silent

theorem ifExists_silent (complaint : String) (w : World) : w.Silent (ifExists complaint w) := by
  have hcalls : w.Silent w.attempt.2.attempt.2 := w.attempt_silent.trans (World.attempt_silent _)
  unfold ifExists
  dsimp only
  split
  · split
    · exact hcalls
    · exact hcalls.trans (World.complain_silent _ _)
  · exact w.attempt_silent

theorem shiftBackups_silent (filename : String) (i : ℕ) (w : World) :
    w.Silent (shiftBackups filename i w) := by
  induction i generalizing w with
  | zero => exact World.Silent.refl w
  | succ i ih => exact ((ifExists_silent _ w).trans (ifExists_silent _ _)).trans (ih _)

/-- No rotation fails or loses a message. -/
theorem rotateLogFiles_ready {level : ℕ} {s : State} (hs : Ready level s) :
    (rotateLogFiles s).1 = true ∧ Ready level (rotateLogFiles s).2
      ∧ (rotateLogFiles s).2.world.payloads = s.world.payloads := by
  unfold rotateLogFiles
  by_cases hsize : s.sFlog.currentFileSize < s.sFlog.maxFileSize
  · rw [if_pos hsize]
    exact ⟨hs.output, hs, rfl⟩
  · rw [if_neg hsize]
    have hshift := (shiftBackups_silent s.sFlog.filename s.sFlog.maxBackupFiles.toNat s.world)
    have hopen := World.attempt_of_reliable (hshift.reliable hs.reliable)
    have hsilent := (hshift.trans (World.attempt_silent _)).trans (getFileSize_silent _)
    dsimp only
    rw [if_pos hopen]
    exact ⟨rfl, ⟨hsilent.reliable hs.reliable, hs.initialized, hs.logger, hs.threshold, rfl⟩,
      hsilent.payloads⟩

/-- A message is written between two pieces of text. -/
theorem vflog_world (fp levelc text : String) {w : World} (hw : w.Reliable) :
    (vflog fp levelc text w).2.Reliable
      ∧ (vflog fp levelc text w).2.payloads = w.payloads ++ [text] :=
  World.printMessage_between ⟨fp, levelc, text⟩ hw

theorem loggerIsEnabled_iff {threshold : ℕ} {s : State} (hs : Ready threshold s)
    (level : LogLevel) : loggerIsEnabled level s = true ↔ threshold ≤ level.toNat := by
  simp [loggerIsEnabled, hs.threshold]

/-- **The threshold alone decides.** -/
theorem loggerLog_emits (threshold : ℕ) (level : LogLevel) (text : String) :
    Emits (Ready threshold) (fun s => s.world.payloads) (loggerLog level text)
      (if threshold ≤ level.toNat then [text] else []) := by
  have hready : ∀ s, Ready threshold s → ¬ (s.sLogger = 0 ∨ s.sInitialized = false) := by
    intro s hs
    rw [hs.logger, hs.initialized]
    decide
  have hwrite : threshold ≤ level.toNat →
      Emits (Ready threshold) (fun s => s.world.payloads) (loggerLog level text) [text] := by
    intro hlevel
    refine .of_forall fun s hs => ?_
    have henabled : ¬ loggerIsEnabled level s = false := by
      simpa using (loggerIsEnabled_iff hs level).mpr hlevel
    have hconsole : hasFlag s.sLogger kConsoleLogger = false := by rw [hs.logger]; decide
    have hfile : hasFlag s.sLogger kFileLogger = true := by rw [hs.logger]; decide
    obtain ⟨hok, hs', hwritten⟩ := rotateLogFiles_ready hs
    obtain ⟨hrel, hlogged⟩ := vflog_world ((rotateLogFiles s).2.sFlog.output.getD "")
      (getLevelChar level) text hs'.reliable
    unfold loggerLog
    rw [if_neg (hready s hs), if_neg henabled]
    simp only [hconsole, hfile, hok, if_true, Bool.false_eq_true, if_false]
    refine ⟨⟨hrel, hs'.initialized, hs'.logger, hs'.threshold, hs'.output⟩, ?_⟩
    rw [hlogged, hwritten]
  refine (Emits.ite _ hwrite).congr ?_
  intro s hs
  split
  · rfl
  · next hlevel =>
      have hdisabled : loggerIsEnabled level s = false := by
        simpa using mt (loggerIsEnabled_iff hs level).mp hlevel
      unfold loggerLog
      rw [if_neg (hready s hs), if_pos hdisabled]

/-- The set-up of the program. -/
theorem cLoggerSetup_ready (logLevel : UInt8) {w : World} (hw : w.Reliable) :
    ∃ s, cLoggerSetup logLevel (initial w) = (some (), s) ∧ Ready logLevel.toNat s
      ∧ s.world.payloads = w.payloads := by
  have hopen : (initial w).world.attempt.1 = true := World.attempt_of_reliable hw
  have hlen : ¬ kMaxFileNameLen < "logs/c-logger.txt".utf8ByteSize := by decide
  unfold cLoggerSetup loggerInitFileLogger
  have hsilent : w.Silent (getFileSize w.attempt.2).2 :=
    w.attempt_silent.trans (getFileSize_silent _)
  simp only [hlen, if_false, hopen, if_true]
  exact ⟨_, rfl, ⟨hsilent.reliable hw, rfl, Nat.zero_or kFileLogger, rfl, rfl⟩, hsilent.payloads⟩

/-- **What the program writes**, for every command line. -/
theorem succeeds (m n : UInt32) (argv : List (List Char)) {w : World} (hw : w.Reliable) :
    backend.Succeeds m n argv w
      (repeated (emitted ((argLevel argv).toNat ≤ 1) ((argLevel argv).toNat ≤ 3)) m n) := by
  obtain ⟨s, hsetup, hs, hwritten⟩ := cLoggerSetup_ready (argLevel argv) hw
  refine backend.succeeds () _ _ hsetup hs hwritten ?_ (fun _ => rfl)
  intro a
  rw [← replicate_emitted]
  exact (loggerLog_emits _ .debug _).comp (loggerLog_emits _ .warn _)

end CLogTest.CLogger

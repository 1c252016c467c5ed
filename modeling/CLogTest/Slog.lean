import CLogTest.Shared.Backend

set_option autoImplicit false

/-! # slog (`src/slog/slog.c`, `src/slog.c`)

slog has no threshold: a message is displayed when its one-bit flag is contained in the mask of
enabled flags. The program turns a log level into a mask by a loop that shifts in one bit for each
of the flags 7, …, 1 (`setLevels_getLsbD`): bit `i` is set when the log level is at most `i`. Since
the flags of the two messages are the bits 2 (`SLOG_INFO`) and 4 (`SLOG_DEBUG`), the messages of an
activation are emitted up to the log levels 2 and 4 (`succeeds`). -/

namespace CLogTest.Slog

/-- `slog_flag_t`. -/
inductive SlogFlag
  | notag
  | note
  | info
  | warn
  | debug
  | trace
  | error
  | fatal

/-- The position of the one bit that is set in the flag. -/
def SlogFlag.bit : SlogFlag → ℕ
  | notag => 0
  | note => 1
  | info => 2
  | warn => 3
  | debug => 4
  | trace => 5
  | error => 6
  | fatal => 7

def SlogFlag.toBits (eFlag : SlogFlag) : BitVec 16 := BitVec.twoPow 16 eFlag.bit

/-- `SLOG_FLAGS_CHECK`. -/
def flagsCheck (c : BitVec 16) (eFlag : SlogFlag) : Bool := c &&& eFlag.toBits = eFlag.toBits

/-- `slog_coloring_t`. -/
inductive Coloring
  | disable
  | tag
  | full
deriving DecidableEq

/-- `slog_config_t`, without the control of date, thread and separator. The callback is given the
    message and its flag. -/
structure Config where
  eColorFormat : Coloring
  logCallback : Option (String → SlogFlag → ℤ)
  nToScreen : UInt8
  nToFile : UInt8
  nIndent : UInt8
  nFlags : BitVec 16
  sFileName : String
  sFilePath : String

/-- `g_slog`, used by one thread. -/
structure State where
  world : World
  config : Config

def initial (w : World) : State := ⟨w, .disable, none, 0, 0, 0, 0, "", ""⟩

/-! ## The library -/

def slogGetIndent (config : Config) : SlogFlag → String
  | .notag => if config.nIndent = 0 then "" else "       "
  | .note | .info | .warn => if config.nIndent = 0 then "" else " "
  | _ => ""

def slogGetTag : SlogFlag → Option String
  | .notag => none
  | .note => some "note"
  | .info => some "info"
  | .warn => some "warn"
  | .debug => some "debug"
  | .error => some "error"
  | .trace => some "trace"
  | .fatal => some "fatal"

def slogGetColor : SlogFlag → String
  | .notag | .note => ""
  | .info => "\x1b[32m"
  | .warn => "\x1b[33m"
  | .debug => "\x1b[34m"
  | .error => "\x1b[31m"
  | .trace => "\x1b[36m"
  | .fatal => "\x1b[35m"

def slogColorReset : String := "\x1b[0m"

def slogCreateTag (config : Config) (eFlag : SlogFlag) : String :=
  match slogGetTag eFlag with
  | none => slogGetIndent config eFlag
  | some tag =>
      if config.eColorFormat ≠ .tag then "<" ++ tag ++ ">" ++ slogGetIndent config eFlag
      else slogGetColor eFlag ++ "<" ++ tag ++ ">" ++ slogColorReset ++ slogGetIndent config eFlag

/-- `slog_create_info`, without date and thread. -/
def slogCreateInfo (config : Config) (eFlag : SlogFlag) : String :=
  (if config.eColorFormat = .full then slogGetColor eFlag else "") ++ slogCreateTag config eFlag

/-- `slog_display_message`. The file is opened and closed for every message. -/
def slogDisplayMessage (eFlag : SlogFlag) (text : String) (s : State) : State :=
  let info := slogCreateInfo s.config eFlag
  let nCbVal := (s.config.logCallback.map fun callback => callback text eFlag).getD 1
  let world :=
    if s.config.nToScreen ≠ 0 ∧ 0 < nCbVal then (s.world.printMessage ⟨"stdout", info, text⟩).2
    else s.world
  if s.config.nToFile = 0 ∨ nCbVal < 0 then { s with world := world }
  else
    let sFilePath :=
      s.config.sFilePath ++ "/" ++ s.config.sFileName ++ "-" ++ world.date world.calls ++ ".log"
    let (ok, world) := world.attempt
    if ok then { s with world := (world.printMessage ⟨sFilePath, info, text⟩).2 }
    else { s with world := world }

/-- `slog_display`. -/
def slogDisplay (eFlag : SlogFlag) (text : String) (s : State) : State :=
  if flagsCheck s.config.nFlags eFlag = true ∧ (s.config.nToScreen ≠ 0 ∨ s.config.nToFile ≠ 0) then
    slogDisplayMessage eFlag text s
  else s

/-- `slog_init`. -/
def slogInit (pName : Option String) (nFlags : BitVec 16) (s : State) : State :=
  { s with
    config :=
      { eColorFormat := .tag
        logCallback := none
        nToScreen := 1
        nToFile := 0
        nIndent := 0
        nFlags := nFlags
        sFileName := pName.getD "slog"
        sFilePath := "." } }

def slogConfigGet (s : State) : Config := s.config

def slogConfigSet (config : Config) (s : State) : State := { s with config := config }

/-! ## The test program -/

def maxSlogLevel : ℕ := 7

/-- The loop of `_slog_setup`, for the rounds `i`, …, 1. -/
def setLevels (logLevel : UInt8) : ℕ → BitVec 32 → BitVec 32
  | 0, enabledLogLevels => enabledLogLevels
  | i + 1, enabledLogLevels =>
      let enabledLogLevels :=
        if logLevel.toNat ≤ i + 1 then enabledLogLevels ^^^ 1#32 else enabledLogLevels
      setLevels logLevel i (enabledLogLevels <<< 1)

/-- `_slog_setup`. -/
def slogSetup (logLevel : UInt8) (s : State) : Option Unit × State :=
  let enabledLogLevels := setLevels logLevel maxSlogLevel 0
  let s := slogInit (some "logs/slog.txt") (enabledLogLevels.setWidth 16) s
  let slogCfg := slogConfigGet s
  let slogCfg := { slogCfg with nToScreen := 0, nToFile := 1 }
  (some (), slogConfigSet slogCfg s)

/-- `_slog_logging`. -/
def slogLogging (m n : UInt32) (s : State) : State :=
  let s := slogDisplay .info (payload m n) s
  slogDisplay .debug (payload m n) s

/-- `main`. -/
def backend : Backend where
  State := State
  Handle := Unit
  initial := initial
  world := State.world
  testSetup argv :=
    { setupFunc := slogSetup
      loggingFunc := slogLogging
      tearDownFunc := noTearDown
      logLevel := argLevel argv }
  description := "slog"

/-! ## The mask -/

/-- A one-bit flag is contained in a mask when its bit is set. -/
theorem flagsCheck_iff (c : BitVec 16) (eFlag : SlogFlag) :
    flagsCheck c eFlag = true ↔ c.getLsbD eFlag.bit = true := by
  unfold flagsCheck SlogFlag.toBits
  rw [decide_eq_true_iff, BitVec.and_twoPow]
  by_cases hbit : c.getLsbD eFlag.bit = true
  · simp [hbit]
  · have hzero : (0#16 : BitVec 16) ≠ BitVec.twoPow 16 eFlag.bit := by cases eFlag <;> decide
    simp [hbit, hzero]

/-- **The loop shifts in one bit for each flag.** The rounds `i`, …, 1 set bit `j ≤ i` when the log
    level is at most `j`, and move the bits set before up by `i`. -/
theorem setLevels_getLsbD (logLevel : UInt8) (i : ℕ) {mask : BitVec 32}
    (hmask : mask.getLsbD 0 = false) {j : ℕ} (hj : 1 ≤ j) (hj' : j < 32) :
    (setLevels logLevel i mask).getLsbD j
      = if j ≤ i then decide (logLevel.toNat ≤ j) else mask.getLsbD (j - i) := by
  induction i generalizing mask with
  | zero => rw [setLevels, if_neg (by omega), Nat.sub_zero]
  | succ i ih =>
      set mask' := if logLevel.toNat ≤ i + 1 then mask ^^^ 1#32 else mask with hmask'
      have hshifted : (mask' <<< 1).getLsbD 0 = false := by simp
      have hset : setLevels logLevel (i + 1) mask = setLevels logLevel i (mask' <<< 1) := rfl
      rw [hset, ih hshifted]
      -- bit `j` is shifted in later, in this round, or was there before
      rcases (by omega : j ≤ i ∨ j = i + 1 ∨ i + 2 ≤ j) with hlt | rfl | hgt
      · rw [if_pos hlt, if_pos (by omega)]
      · have hlow : mask'.getLsbD 0 = decide (logLevel.toNat ≤ i + 1) := by
          rw [hmask']
          split_ifs with hlevel
          · rw [BitVec.getLsbD_xor, hmask, BitVec.getLsbD_one, decide_eq_true hlevel]
            rfl
          · rw [hmask, decide_eq_false hlevel]
        rw [if_neg (by omega), if_pos le_rfl, Nat.add_sub_cancel_left]
        simpa using hlow
      · have hhigh : mask'.getLsbD (j - (i + 1)) = mask.getLsbD (j - (i + 1)) := by
          rw [hmask']
          split_ifs
          · have hne : j - (i + 1) ≠ 0 := by omega
            simp [hne]
          · rfl
        rw [if_neg (by omega), if_neg (by omega), ← hhigh]
        have hsub : j - i - 1 = j - (i + 1) := by omega
        have hpos : 1 ≤ j - i := by omega
        simp [hsub]
        omega

/-- The flags that `_slog_setup` enables. -/
theorem flagsCheck_setLevels (logLevel : UInt8) (eFlag : SlogFlag) (h : eFlag.bit ≠ 0) :
    flagsCheck ((setLevels logLevel maxSlogLevel 0).setWidth 16) eFlag = true
      ↔ logLevel.toNat ≤ eFlag.bit := by
  have hbit : eFlag.bit ≤ maxSlogLevel ∧ eFlag.bit < 16 := by cases eFlag <;> decide
  rw [flagsCheck_iff, BitVec.getLsbD_setWidth,
    setLevels_getLsbD logLevel maxSlogLevel (by decide) (by omega) (by omega), if_pos hbit.1]
  simp [hbit.2]

/-! ## What is logged -/

/-- The library writes to the file the messages whose flags `logLevel` enables, in an environment
    that does not fail. -/
structure Ready (logLevel : UInt8) (s : State) : Prop where
  reliable : s.world.Reliable
  callback : s.config.logCallback = none
  screen : s.config.nToScreen = 0
  file : s.config.nToFile = 1
  flags : s.config.nFlags = (setLevels logLevel maxSlogLevel 0).setWidth 16

theorem slogDisplayMessage_emits (logLevel : UInt8) (eFlag : SlogFlag) (text : String) :
    Emits (Ready logLevel) (fun s => s.world.payloads) (slogDisplayMessage eFlag text) [text] := by
  refine .of_forall fun s hs => ?_
  have hopen := World.attempt_of_reliable hs.reliable
  have hopened := s.world.attempt_silent.reliable hs.reliable
  have hscreen (nCbVal : ℤ) : ¬ (s.config.nToScreen ≠ 0 ∧ 0 < nCbVal) := by simp [hs.screen]
  have hfile : ¬ (s.config.nToFile = 0 ∨
      (s.config.logCallback.map fun callback => callback text eFlag).getD 1 < 0) := by
    rw [hs.file, hs.callback, Option.map_none, Option.getD_none]
    decide
  unfold slogDisplayMessage
  dsimp only
  rw [if_neg hfile, if_neg (hscreen _), if_pos hopen]
  obtain ⟨-, hrel, hwritten⟩ := World.printMessage_of_reliable _ hopened
  exact ⟨⟨hrel, hs.callback, hs.screen, hs.file, hs.flags⟩, hwritten⟩

/-- **The mask decides.** -/
theorem slogDisplay_emits (logLevel : UInt8) (eFlag : SlogFlag) (h : eFlag.bit ≠ 0)
    (text : String) :
    Emits (Ready logLevel) (fun s => s.world.payloads) (slogDisplay eFlag text)
      (if logLevel.toNat ≤ eFlag.bit then [text] else []) := by
  refine (Emits.ite _ fun _ => slogDisplayMessage_emits logLevel eFlag text).congr ?_
  intro s hs
  have hflags := flagsCheck_setLevels logLevel eFlag h
  rw [← hs.flags] at hflags
  unfold slogDisplay
  simp [hflags, hs.file]

/-- **What the program writes**, for every command line. -/
theorem succeeds (m n : UInt32) (argv : List (List Char)) {w : World} (hw : w.Reliable) :
    backend.Succeeds m n argv w
      (repeated (emitted ((argLevel argv).toNat ≤ 2) ((argLevel argv).toNat ≤ 4)) m n) := by
  have hsetup : ∃ s, slogSetup (argLevel argv) (initial w) = (some (), s)
      ∧ Ready (argLevel argv) s ∧ s.world.payloads = w.payloads :=
    ⟨_, rfl, ⟨hw, rfl, rfl, rfl, rfl⟩, rfl⟩
  obtain ⟨s, hsetup, hs, hwritten⟩ := hsetup
  refine backend.succeeds () _ _ hsetup hs hwritten ?_ (fun _ => rfl)
  intro a
  rw [← replicate_emitted]
  exact (slogDisplay_emits _ .info (by decide) _).comp (slogDisplay_emits _ .debug (by decide) _)

end CLogTest.Slog

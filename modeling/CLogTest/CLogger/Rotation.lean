import CLogTest.CLogger
import CLogTest.Storage.RotatingLog
import Mathlib.Data.List.Flatten

set_option autoImplicit false

/-! # c-logger on a file system (`src/c-logger/logger.c`)

The file logger once more, with the files it writes in place of an oracle: `rotateLogFiles` renames
`file.1`, `file.2`, … and starts a new file when the current one is full. A file system may refuse
any request. Whatever it refuses, what stays on the disk is in order (`session_history_sublist`);
when it refuses nothing, the logger is a rotating log (`session_appends`). -/

namespace CLogTest.CLogger.OnDisk

/-- A stream, an open file being named by its path. -/
inductive Stream
  | terminal
  | file (path : String)

/-- A file system and a terminal. A file is the list of the pieces of text written to it. -/
structure Disk where
  files : String → Option (List String)
  terminal : List String
  /-- `stderr`. -/
  complaints : List String
  /-- Is the request with this number granted? -/
  grants : ℕ → Bool
  requests : ℕ

namespace Disk

def request (d : Disk) : Bool × Disk :=
  (d.grants d.requests, { d with requests := d.requests + 1 })

def complain (text : String) (d : Disk) : Disk := { d with complaints := d.complaints ++ [text] }

/-- `isFileExist`. -/
def isFileExist (path : String) (d : Disk) : Bool × Disk :=
  let (ok, d) := d.request
  (ok && (d.files path).isSome, d)

/-- `remove`. -/
def remove (path : String) (d : Disk) : Bool × Disk :=
  let (ok, d) := d.request
  if ok && (d.files path).isSome then
    (true, { d with files := Function.update d.files path none })
  else (false, d)

/-- `rename`, which replaces a file under the new name. -/
def rename (src dst : String) (d : Disk) : Bool × Disk :=
  let (ok, d) := d.request
  if ok && (d.files src).isSome then
    (true, { d with
      files := Function.update (Function.update d.files src none) dst (d.files src) })
  else (false, d)

/-- `fopen(path, "a")`. -/
def openAppend (path : String) (d : Disk) : Bool × Disk :=
  let (ok, d) := d.request
  if ok then
    (true, { d with files := Function.update d.files path (some ((d.files path).getD [])) })
  else (false, d)

/-- `getFileSize`. -/
def getFileSize (path : String) (d : Disk) : ℤ × Disk :=
  let (ok, d) := d.request
  (if ok then RotatingLog.size String.utf8ByteSize ((d.files path).getD []) else 0, d)

/-- `fprintf`: the number of bytes written, or -1. -/
def fprintf (out : Stream) (text : String) (d : Disk) : ℤ × Disk :=
  let (ok, d) := d.request
  if ok then
    (text.utf8ByteSize,
      match out with
      | .terminal => { d with terminal := d.terminal ++ [text] }
      | .file path =>
          { d with files := Function.update d.files path ((d.files path).map (· ++ [text])) })
  else (-1, d)

end Disk

/-- The arguments of `logger_log`, with the text formatted, and what it asks the system for. -/
structure Record where
  level : LogLevel
  timestamp : String
  threadID : ℕ
  file : String
  line : ℕ
  text : String

/-- `"%c %s %ld %s:%d: "`. -/
def Record.header (r : Record) : String :=
  getLevelChar r.level ++ " " ++ r.timestamp ++ " " ++ toString r.threadID ++ " " ++ r.file ++ ":"
    ++ toString r.line ++ ": "

/-- The pieces of text that make up the line of a record. -/
def Record.pieces (r : Record) : List String := [r.header, r.text, "\n"]

/-- The static variables of `logger.c`. -/
structure State where
  disk : Disk
  sFlog : FileLogger
  sLogger : ℕ
  sLogLevel : ℕ
  sInitialized : Bool

def initial (d : Disk) : State where
  disk := d
  sFlog := ⟨none, "", 0, 0, 0⟩
  sLogger := 0
  sLogLevel := LogLevel.info.toNat
  sInitialized := false

/-! ## The library -/

/-- `logger_initConsoleLogger`, with one of the two streams it accepts. -/
def loggerInitConsoleLogger (s : State) : State :=
  { s with sInitialized := true, sLogger := s.sLogger ||| kConsoleLogger }

/-- `logger_initFileLogger`. Both early returns follow a failing assertion. -/
def loggerInitFileLogger (filename : Option String) (maxFileSize : ℤ) (maxBackupFiles : UInt8)
    (s : State) : Bool × State :=
  match filename with
  | none => (false, s)
  | some filename =>
      if kMaxFileNameLen < filename.utf8ByteSize then (false, s)
      else
        let (ok, disk) := s.disk.openAppend filename
        if ok then
          let (size, disk) := disk.getFileSize filename
          (true, { s with
            disk := disk
            sInitialized := true
            sFlog :=
              { output := some filename
                filename := filename
                maxFileSize := if 0 < maxFileSize then maxFileSize else kDefaultMaxFileSize
                maxBackupFiles := maxBackupFiles
                currentFileSize := size }
            sLogger := s.sLogger ||| kFileLogger })
        else
          (false, { s with
            disk := disk.complain ("ERROR: logger: Failed to open file: `" ++ filename ++ "`\n")
            sInitialized := true
            sFlog := { s.sFlog with output := none } })

/-- `logger_setLevel`. -/
def loggerSetLevel (level : LogLevel) (s : State) : State := { s with sLogLevel := level.toNat }

/-- `logger_isEnabled`. -/
def loggerIsEnabled (level : LogLevel) (s : State) : Bool := s.sLogLevel ≤ level.toNat

/-- The first half of a round of the loop of `rotateLogFiles`. -/
def removeBackup (dst : String) (d : Disk) : Disk :=
  let (exist, d) := d.isFileExist dst
  if exist then
    let (ok, d) := d.remove dst
    if ok then d else d.complain ("ERROR: logger: Failed to remove file: `" ++ dst ++ "`\n")
  else d

/-- The second half of a round of the loop of `rotateLogFiles`. -/
def renameBackup (src dst : String) (d : Disk) : Disk :=
  let (exist, d) := d.isFileExist src
  if exist then
    let (ok, d) := d.rename src dst
    if ok then d
    else d.complain
      ("ERROR: logger: Failed to rename file: `" ++ src ++ "` -> `" ++ dst ++ "`\n")
  else d

/-- The loop of `rotateLogFiles`. -/
def shiftBackups (filename : String) : ℕ → Disk → Disk
  | 0, d => d
  | i + 1, d =>
      let src := getBackupFileName filename i
      let dst := getBackupFileName filename (i + 1)
      shiftBackups filename i (renameBackup src dst (removeBackup dst d))

/-- `rotateLogFiles`. `none`: it closes a stream that is not open, which is undefined. -/
def rotateLogFiles (s : State) : Option (Bool × State) :=
  if s.sFlog.currentFileSize < s.sFlog.maxFileSize then some (s.sFlog.output.isSome, s)
  else if s.sFlog.output.isNone then none
  else
    let disk := shiftBackups s.sFlog.filename s.sFlog.maxBackupFiles.toNat s.disk
    let (ok, disk) := disk.openAppend s.sFlog.filename
    if ok then
      let (size, disk) := disk.getFileSize s.sFlog.filename
      some (true, { s with
        disk := disk
        sFlog := { s.sFlog with output := some s.sFlog.filename, currentFileSize := size } })
    else
      some (false, { s with
        disk := disk.complain
          ("ERROR: logger: Failed to open file: `" ++ s.sFlog.filename ++ "`\n")
        sFlog := { s.sFlog with output := none } })

/-- `vflog`. Flushing, which writes nothing new, is left out. -/
def vflog (out : Stream) (r : Record) (d : Disk) : ℤ × Disk :=
  let (size₁, d) := d.fprintf out r.header
  let (size₂, d) := d.fprintf out r.text
  let (size₃, d) := d.fprintf out "\n"
  (max 0 size₁ + max 0 size₂ + max 0 size₃, d)

/-- The console part of `logger_log`. -/
def logToConsole (r : Record) (s : State) : State :=
  if hasFlag s.sLogger kConsoleLogger then
    { s with disk := (vflog .terminal r s.disk).2 }
  else s

/-- The file part of `logger_log`. -/
def logToFile (r : Record) (s : State) : Option State :=
  match rotateLogFiles s with
  | none => none
  | some (false, s) => some s
  | some (true, s) =>
      let (size, disk) := vflog (.file (s.sFlog.output.getD "")) r s.disk
      some { s with
        disk := disk
        sFlog := { s.sFlog with currentFileSize := s.sFlog.currentFileSize + size } }

/-- `logger_log`. The early return follows a failing assertion. -/
def loggerLog (r : Record) (s : State) : Option State :=
  if s.sLogger = 0 ∨ s.sInitialized = false then some s
  else if loggerIsEnabled r.level s = false then some s
  else
    let s := logToConsole r s
    if hasFlag s.sLogger kFileLogger then logToFile r s else some s

/-! ## Runs -/

/-- A call of the library after the set-up. -/
inductive Call
  | setLevel (level : LogLevel)
  | log (record : Record)

def Call.exec : Call → State → Option State
  | .setLevel level, s => some (loggerSetLevel level s)
  | .log r, s => loggerLog r s

def run (calls : List Call) (s : State) : Option State :=
  calls.foldlM (fun s call => call.exec s) s

/-- The records that reach the level set before them. -/
def due : ℕ → List Call → List Record
  | _, [] => []
  | _, .setLevel level :: calls => due level.toNat calls
  | threshold, .log r :: calls =>
      if threshold ≤ r.level.toNat then r :: due threshold calls else due threshold calls

/-- A file system without files that refuses nothing. -/
def Disk.empty : Disk := ⟨fun _ => none, [], [], fun _ => true, 0⟩

theorem due_log (threshold : ℕ) (r : Record) (calls : List Call) :
    due threshold (.log r :: calls)
      = if threshold ≤ r.level.toNat then r :: due threshold calls else due threshold calls :=
  rfl

/-- In an environment that does not fail, the library writes the texts of the records that are
    due. -/
theorem loggerLog_emits_due (threshold : ℕ) (records : List Record) :
    Emits (CLogger.Ready threshold) (fun s => s.world.payloads)
      (fun s => records.foldl (fun s r => CLogger.loggerLog r.level r.text s) s)
      ((due threshold (records.map Call.log)).map Record.text) := by
  have htexts : records.flatMap (fun r => if threshold ≤ r.level.toNat then [r.text] else [])
      = (due threshold (records.map Call.log)).map Record.text := by
    induction records with
    | nil => rfl
    | cons r records ih =>
        rw [List.flatMap_cons, ih, List.map_cons, due_log]
        split <;> rfl
  rw [← htexts]
  exact Emits.foldl (fun r => loggerLog_emits threshold r.level r.text) records

/-- A logger is set up for a file and used. -/
def session (filename : String) (maxFileSize : ℤ) (maxBackupFiles : UInt8) (calls : List Call)
    (s : State) : Option State :=
  match loggerInitFileLogger (some filename) maxFileSize maxBackupFiles s with
  | (true, s) => run calls s
  | (false, _) => none

/-- The files of a logger as slots: 0 is the file itself, `i` its `i`-th backup. -/
def slots (filename : String) (d : Disk) : ℕ → Option (List String) :=
  d.files ∘ getBackupFileName filename

/-- The backups of a file have names of their own. -/
theorem getBackupFileName_injective (basename : String) :
    Function.Injective (getBackupFileName basename) := by
  have hlength : ∀ i, (getBackupFileName basename (i + 1)).length ≠ basename.length := by
    intro i
    unfold getBackupFileName
    rw [if_pos (Nat.succ_pos i), String.length_append, String.length_append]
    have : ".".length = 1 := rfl
    omega
  intro i j h
  cases i with
  | zero =>
      cases j with
      | zero => rfl
      | succ j => exact absurd (congrArg String.length h).symm (hlength j)
  | succ i =>
      cases j with
      | zero => exact absurd (congrArg String.length h) (hlength i)
      | succ j =>
          unfold getBackupFileName at h
          rw [if_pos (Nat.succ_pos i), if_pos (Nat.succ_pos j), String.append_right_inj] at h
          have hdigits := congrArg String.toList h
          simp only [Nat.toString_eq_repr, Nat.toList_repr] at hdigits
          rw [← Nat.ofDigitChars_ten_toDigits (n := i + 1), hdigits,
            Nat.ofDigitChars_ten_toDigits]

theorem slots_update (filename : String) (d : Disk) (i : ℕ) (file : Option (List String)) :
    Function.update d.files (getBackupFileName filename i) file ∘ getBackupFileName filename
      = Function.update (slots filename d) i file :=
  Function.update_comp_eq_of_injective _ (getBackupFileName_injective filename) i file

/-! ## Whatever the file system refuses -/

/-- From `d` to `d'` at most `entry` is added to the log of `filename`, at its end, and no other
    file changes. -/
structure Adds (filename : String) (k : ℕ) (d d' : Disk) (entry : List String) : Prop where
  history : (RotatingLog.history k (slots filename d')).Sublist
    (RotatingLog.history k (slots filename d) ++ entry)
  frame : ∀ path, (∀ i ≤ k, path ≠ getBackupFileName filename i) → d'.files path = d.files path

namespace Adds

variable {filename : String} {k : ℕ} {d d' d'' : Disk} {entry entry' : List String}

theorem of_files_eq (h : d'.files = d.files) (entry : List String) :
    Adds filename k d d' entry where
  history := by
    unfold slots
    rw [h]
    exact List.sublist_append_left _ _
  frame path _ := by rw [h]

theorem trans (h : Adds filename k d d' entry) (h' : Adds filename k d' d'' entry') :
    Adds filename k d d'' (entry ++ entry') where
  history := by
    rw [← List.append_assoc]
    exact h'.history.trans (h.history.append_right entry')
  frame path hpath := (h'.frame path hpath).trans (h.frame path hpath)

theorem remove {i : ℕ} (hi : i ≤ k) (d : Disk) :
    Adds filename k d (d.remove (getBackupFileName filename i)).2 [] := by
  unfold Disk.remove Disk.request
  dsimp only
  split
  · refine ⟨?_, fun path hpath => Function.update_of_ne (hpath i hi) none d.files⟩
    unfold slots
    rw [slots_update, List.append_nil]
    exact (Slots.below_clear_sublist (k + 1) i _).flatten
  · exact of_files_eq (by rfl) []

theorem rename {i : ℕ} (hi : i < k) (d : Disk) :
    Adds filename k d
      (d.rename (getBackupFileName filename i) (getBackupFileName filename (i + 1))).2 [] := by
  unfold Disk.rename Disk.request
  dsimp only
  split
  · refine ⟨?_, fun path hpath => ?_⟩
    · unfold slots
      rw [Function.update_comp_eq_of_injective _ (getBackupFileName_injective filename),
        slots_update, List.append_nil]
      exact (Slots.below_move_sublist (Nat.succ_lt_succ hi) _).flatten
    · dsimp only
      rw [Function.update_of_ne (hpath (i + 1) hi), Function.update_of_ne (hpath i hi.le)]
  · exact of_files_eq (by rfl) []

theorem openAppend (d : Disk) : Adds filename k d (d.openAppend filename).2 [] := by
  unfold Disk.openAppend Disk.request
  dsimp only
  split
  · refine ⟨?_, fun path hpath => Function.update_of_ne (hpath 0 (Nat.zero_le k)) _ d.files⟩
    have htouch : slots filename { d with
          files := Function.update d.files filename (some ((d.files filename).getD []))
          requests := d.requests + 1 } = RotatingLog.touch (slots filename d) :=
      slots_update filename d 0 _
    rw [htouch, RotatingLog.history_touch, List.append_nil]
  · exact of_files_eq (by rfl) []

theorem fprintf (text : String) (d : Disk) :
    Adds filename k d (d.fprintf (.file filename) text).2 [text] := by
  unfold Disk.fprintf Disk.request
  dsimp only
  split
  · refine ⟨?_, fun path hpath => Function.update_of_ne (hpath 0 (Nat.zero_le k)) _ d.files⟩
    have hwrite : slots filename { d with
          files := Function.update d.files filename ((d.files filename).map (· ++ [text]))
          requests := d.requests + 1 } = RotatingLog.write [text] (slots filename d) :=
      slots_update filename d 0 _
    rw [hwrite]
    exact RotatingLog.history_write_sublist [text] _
  · exact of_files_eq (by rfl) [text]

theorem vflog (r : Record) (d : Disk) :
    Adds filename k d (OnDisk.vflog (.file filename) r d).2 r.pieces :=
  ((fprintf r.header d).trans (fprintf r.text _)).trans (fprintf "\n" _)

theorem isFileExist (path : String) (d : Disk) :
    Adds filename k d (d.isFileExist path).2 [] :=
  of_files_eq (by rfl) []

theorem removeBackup {i : ℕ} (hi : i ≤ k) (d : Disk) :
    Adds filename k d (OnDisk.removeBackup (getBackupFileName filename i) d) [] := by
  have hquery : Adds filename k d (d.isFileExist (getBackupFileName filename i)).2 [] :=
    isFileExist _ d
  unfold OnDisk.removeBackup
  dsimp only
  split
  · split
    · exact hquery.trans (remove hi _)
    · exact (hquery.trans (remove hi _)).trans (of_files_eq (by rfl) [])
  · exact hquery

theorem renameBackup {i : ℕ} (hi : i < k) (d : Disk) :
    Adds filename k d (OnDisk.renameBackup (getBackupFileName filename i)
      (getBackupFileName filename (i + 1)) d) [] := by
  have hquery : Adds filename k d (d.isFileExist (getBackupFileName filename i)).2 [] :=
    isFileExist _ d
  unfold OnDisk.renameBackup
  dsimp only
  split
  · split
    · exact hquery.trans (rename hi _)
    · exact (hquery.trans (rename hi _)).trans (of_files_eq (by rfl) [])
  · exact hquery

theorem shiftBackups {i : ℕ} (hi : i ≤ k) (d : Disk) :
    Adds filename k d (OnDisk.shiftBackups filename i d) [] := by
  induction i generalizing d with
  | zero => exact of_files_eq rfl []
  | succ i ih =>
      exact ((removeBackup hi d).trans (renameBackup hi _)).trans (ih (Nat.le_of_succ_le hi) _)

end Adds

variable {filename : String} {k : ℕ} {s s' : State}

/-- The terminal is not a file. -/
theorem vflog_terminal (r : Record) (d : Disk) :
    (vflog .terminal r d).2.files = d.files ∧ (vflog .terminal r d).2.grants = d.grants := by
  have hprint : ∀ text (d : Disk), (d.fprintf .terminal text).2.files = d.files
      ∧ (d.fprintf .terminal text).2.grants = d.grants := by
    intro text d
    unfold Disk.fprintf
    dsimp only
    split <;> exact ⟨rfl, rfl⟩
  unfold vflog
  dsimp only
  rw [(hprint _ _).1, (hprint _ _).1, (hprint _ _).1, (hprint _ _).2, (hprint _ _).2,
    (hprint _ _).2]
  exact ⟨rfl, rfl⟩

def Disk.Granting (d : Disk) : Prop := ∀ i, d.grants i = true

/-- The files of `d'` are `files`, and nothing is refused yet. -/
structure Leaves (filename : String) (d' : Disk) (files : ℕ → Option (List String)) : Prop where
  granting : d'.Granting
  slots : slots filename d' = files

section Granting

variable {d : Disk} (hd : d.Granting)
include hd

theorem isFileExist_granting (path : String) :
    (d.isFileExist path).1 = (d.files path).isSome := by
  simp only [Disk.isFileExist, Disk.request, hd d.requests, Bool.true_and]

theorem removeBackup_leaves (filename : String) (i : ℕ) :
    Leaves filename (removeBackup (getBackupFileName filename i) d)
      (Slots.clear i (slots filename d)) := by
  unfold removeBackup
  dsimp only
  rw [isFileExist_granting hd]
  by_cases hfile : (d.files (getBackupFileName filename i)).isSome
  · simp only [hfile, if_true, Disk.remove, Disk.isFileExist, Disk.request, hd _, Bool.true_and]
    exact ⟨hd, slots_update filename d i none⟩
  · rw [if_neg hfile, Slots.clear_of_none (Option.not_isSome_iff_eq_none.mp hfile)]
    exact ⟨hd, rfl⟩

theorem renameBackup_leaves (filename : String) {i j : ℕ} (hij : i ≠ j)
    (hfree : slots filename d j = none) :
    Leaves filename (renameBackup (getBackupFileName filename i) (getBackupFileName filename j) d)
      (Slots.move i j (slots filename d)) := by
  unfold renameBackup
  dsimp only
  rw [isFileExist_granting hd]
  by_cases hfile : (d.files (getBackupFileName filename i)).isSome
  · simp only [hfile, if_true, Disk.rename, Disk.isFileExist, Disk.request, hd _, Bool.true_and]
    refine ⟨hd, ?_⟩
    unfold slots
    rw [Function.update_comp_eq_of_injective _ (getBackupFileName_injective filename),
      slots_update]
    rfl
  · rw [if_neg hfile]
    refine ⟨hd, ?_⟩
    have hnone : slots filename d i = none := Option.not_isSome_iff_eq_none.mp hfile
    rw [Slots.move_of_none hij hnone, Slots.clear_of_none hfree]
    rfl

end Granting

theorem shiftBackups_leaves {d : Disk} (hd : d.Granting) (filename : String) (i : ℕ) :
    Leaves filename (shiftBackups filename i d) (Slots.shift i (slots filename d)) := by
  induction i generalizing d with
  | zero => exact ⟨hd, (Slots.shift_zero _).symm⟩
  | succ i ih =>
      have hremove := removeBackup_leaves hd filename (i + 1)
      have hrename := renameBackup_leaves hremove.granting filename (Nat.succ_ne_self i).symm
        (by rw [hremove.slots, Slots.clear_self])
      have hrest := ih hrename.granting
      rw [hrename.slots, hremove.slots, Slots.move_clear (Nat.succ_ne_self i).symm,
        ← Slots.shift_succ] at hrest
      exact hrest

theorem openAppend_leaves {d : Disk} (hd : d.Granting) (filename : String) :
    (d.openAppend filename).1 = true
      ∧ Leaves filename (d.openAppend filename).2 (RotatingLog.touch (slots filename d)) := by
  simp only [Disk.openAppend, Disk.request, hd _, if_true]
  exact ⟨trivial, hd, slots_update filename d 0 _⟩

theorem getFileSize_granting {d : Disk} (hd : d.Granting) (filename : String) :
    (d.getFileSize filename).1
        = RotatingLog.size String.utf8ByteSize ((slots filename d 0).getD [])
      ∧ Leaves filename (d.getFileSize filename).2 (slots filename d) := by
  simp only [Disk.getFileSize, Disk.request, hd _, if_true]
  exact ⟨rfl, hd, rfl⟩

theorem fprintf_leaves {d : Disk} (hd : d.Granting) (filename text : String) :
    (d.fprintf (.file filename) text).1 = text.utf8ByteSize
      ∧ Leaves filename (d.fprintf (.file filename) text).2
        (RotatingLog.write [text] (slots filename d)) := by
  simp only [Disk.fprintf, Disk.request, hd _, if_true]
  exact ⟨trivial, hd, slots_update filename d 0 _⟩

/-- A line is written as a whole, and counted. -/
theorem vflog_leaves {d : Disk} (hd : d.Granting) (filename : String) (r : Record) :
    (vflog (.file filename) r d).1 = RotatingLog.size String.utf8ByteSize r.pieces
      ∧ Leaves filename (vflog (.file filename) r d).2
        (RotatingLog.write r.pieces (slots filename d)) := by
  obtain ⟨hsize₁, h₁⟩ := fprintf_leaves hd filename r.header
  obtain ⟨hsize₂, h₂⟩ := fprintf_leaves h₁.granting filename r.text
  obtain ⟨hsize₃, h₃⟩ := fprintf_leaves h₂.granting filename "\n"
  unfold vflog
  dsimp only
  rw [hsize₁, hsize₂, hsize₃]
  refine ⟨?_, h₃.granting, ?_⟩
  · simp [RotatingLog.size, Record.pieces, add_assoc]
  · rw [h₃.slots, h₂.slots, h₁.slots, RotatingLog.write_write, RotatingLog.write_write]
    rfl

/-- The file logger is set up for `filename`, with its counter right, and nothing is refused. -/
structure Ready (filename : String) (limit k : ℕ) (s : State) : Prop where
  granting : s.disk.Granting
  initialized : s.sInitialized = true
  logger : hasFlag s.sLogger kFileLogger = true
  name : s.sFlog.filename = filename
  output : s.sFlog.output = some filename
  limit : s.sFlog.maxFileSize = limit
  backups : s.sFlog.maxBackupFiles.toNat = k
  exist : (slots filename s.disk 0).isSome
  counted : s.sFlog.currentFileSize
    = RotatingLog.size String.utf8ByteSize ((slots filename s.disk 0).getD [])

variable {limit : ℕ}

theorem rotateLogFiles_rotated (hs : Ready filename limit k s) :
    ∃ s', rotateLogFiles s = some (true, s') ∧ Ready filename limit k s'
      ∧ s'.sLogLevel = s.sLogLevel
      ∧ slots filename s'.disk
        = RotatingLog.rotated String.utf8ByteSize limit k (slots filename s.disk) := by
  unfold rotateLogFiles RotatingLog.rotated
  rw [hs.counted, hs.limit]
  simp only [Nat.cast_lt]
  split
  · exact ⟨s, by rw [hs.output]; rfl, hs, rfl, rfl⟩
  · have hshift := shiftBackups_leaves hs.granting filename k
    obtain ⟨hok, hopen⟩ := openAppend_leaves hshift.granting filename
    obtain ⟨hsize, hquery⟩ := getFileSize_granting hopen.granting filename
    rw [hs.output, hs.name, hs.backups]
    dsimp only [Option.isNone_some]
    rw [if_neg Bool.false_ne_true, if_pos hok]
    refine ⟨_, rfl, ?_, rfl, ?_⟩
    · exact
        { granting := hquery.granting
          initialized := hs.initialized
          logger := hs.logger
          name := rfl
          output := rfl
          limit := hs.limit
          backups := hs.backups
          exist := by
            rw [hquery.slots, hopen.slots, RotatingLog.touch_zero]
            rfl
          counted := by rw [hquery.slots, hsize] }
    · rw [hquery.slots, hopen.slots, hshift.slots]

/-- **The logger refines the rotating log.** -/
theorem logToFile_append (hs : Ready filename limit k s) (r : Record) :
    ∃ s', logToFile r s = some s' ∧ Ready filename limit k s' ∧ s'.sLogLevel = s.sLogLevel
      ∧ slots filename s'.disk
        = RotatingLog.append String.utf8ByteSize limit k (slots filename s.disk) r.pieces := by
  obtain ⟨s₁, hrotate, hs₁, hlevel, hslots⟩ := rotateLogFiles_rotated hs
  obtain ⟨hsize, hwrite⟩ := vflog_leaves hs₁.granting filename r
  unfold logToFile
  rw [hrotate]
  dsimp only
  rw [hs₁.output, Option.getD_some]
  refine ⟨_, rfl, ?_, hlevel, ?_⟩
  · exact
      { granting := hwrite.granting
        initialized := hs₁.initialized
        logger := hs₁.logger
        name := hs₁.name
        output := rfl
        limit := hs₁.limit
        backups := hs₁.backups
        exist := by
          rw [hwrite.slots, RotatingLog.write_zero, Option.isSome_map]
          exact hs₁.exist
        counted := by
          obtain ⟨file, hfile⟩ := Option.isSome_iff_exists.mp hs₁.exist
          rw [hwrite.slots, RotatingLog.write_zero, hs₁.counted, hsize, hfile, Option.map_some,
            Option.getD_some, Option.getD_some, RotatingLog.size_append, Nat.cast_add] }
  · rw [hwrite.slots, hslots]
    rfl

theorem logToConsole_ready (hs : Ready filename limit k s) (r : Record) :
    Ready filename limit k (logToConsole r s)
      ∧ (logToConsole r s).sLogLevel = s.sLogLevel
      ∧ slots filename (logToConsole r s).disk = slots filename s.disk := by
  unfold logToConsole
  split
  · obtain ⟨hfiles, hgrants⟩ := vflog_terminal r s.disk
    have hslots : slots filename (vflog .terminal r s.disk).2 = slots filename s.disk := by
      unfold slots
      rw [hfiles]
    refine ⟨?_, rfl, hslots⟩
    exact
      { granting := fun i => by rw [hgrants, hs.granting i]
        initialized := hs.initialized
        logger := hs.logger
        name := hs.name
        output := hs.output
        limit := hs.limit
        backups := hs.backups
        exist := by
          rw [hslots]
          exact hs.exist
        counted := by rw [hslots, hs.counted] }
  · exact ⟨hs, rfl, rfl⟩

theorem loggerLog_append (hs : Ready filename limit k s) (r : Record) :
    ∃ s', loggerLog r s = some s' ∧ Ready filename limit k s' ∧ s'.sLogLevel = s.sLogLevel
      ∧ slots filename s'.disk
        = if s.sLogLevel ≤ r.level.toNat then
            RotatingLog.append String.utf8ByteSize limit k (slots filename s.disk) r.pieces
          else slots filename s.disk := by
  have hlogger : ¬ (s.sLogger = 0 ∨ s.sInitialized = false) := by
    rintro (h | h)
    · have := hs.logger
      rw [h] at this
      exact absurd this (by decide)
    · rw [hs.initialized] at h
      exact Bool.noConfusion h
  obtain ⟨hs₁, hlevel, hslots⟩ := logToConsole_ready hs r
  obtain ⟨s', hlog, hs', hlevel', hslots'⟩ := logToFile_append hs₁ r
  unfold loggerLog
  rw [if_neg hlogger]
  by_cases hdue : s.sLogLevel ≤ r.level.toNat
  · have henabled : ¬ loggerIsEnabled r.level s = false := by
      simpa [loggerIsEnabled] using hdue
    dsimp only
    rw [if_neg henabled, if_pos hdue, if_pos hs₁.logger, ← hslots]
    exact ⟨s', hlog, hs', hlevel'.trans hlevel, hslots'⟩
  · have hdisabled : loggerIsEnabled r.level s = false := by
      simpa [loggerIsEnabled] using hdue
    rw [if_pos hdisabled, if_neg hdue]
    exact ⟨s, rfl, hs, rfl, rfl⟩

theorem run_appends (calls : List Call) (hs : Ready filename limit k s) :
    ∃ s', run calls s = some s' ∧ Ready filename limit k s'
      ∧ slots filename s'.disk = RotatingLog.appends String.utf8ByteSize limit k
          (slots filename s.disk) ((due s.sLogLevel calls).map Record.pieces) := by
  induction calls generalizing s with
  | nil => exact ⟨s, rfl, hs, rfl⟩
  | cons call calls ih =>
      cases call with
      | setLevel level =>
          have hs₁ : Ready filename limit k (loggerSetLevel level s) :=
            ⟨hs.granting, hs.initialized, hs.logger, hs.name, hs.output, hs.limit, hs.backups,
              hs.exist, hs.counted⟩
          exact ih hs₁
      | log r =>
          obtain ⟨s₁, hlog, hs₁, hlevel, hslots⟩ := loggerLog_append hs r
          obtain ⟨s', hrun, hs', hslots'⟩ := ih hs₁
          refine ⟨s', ?_, hs', ?_⟩
          · unfold run
            rw [List.foldlM_cons]
            exact Option.bind_eq_some_iff.mpr ⟨s₁, hlog, hrun⟩
          · rw [hslots', hslots, hlevel, due_log]
            split <;> rfl

theorem hasFlag_or_right (flags flag : ℕ) : hasFlag (flags ||| flag) flag = true := by
  unfold hasFlag
  rw [decide_eq_true_eq]
  refine Nat.eq_of_testBit_eq fun i => ?_
  rw [Nat.testBit_and, Nat.testBit_or]
  cases flags.testBit i <;> cases flag.testBit i <;> rfl

/-- The size of the file that `logger_initFileLogger` asks for. -/
def effectiveMaxFileSize (maxFileSize : ℤ) : ℕ :=
  (if 0 < maxFileSize then maxFileSize else kDefaultMaxFileSize).toNat

theorem loggerInitFileLogger_ready (hname : filename.utf8ByteSize ≤ kMaxFileNameLen)
    (maxFileSize : ℤ) (maxBackupFiles : UInt8) {s₀ : State} (hs₀ : s₀.disk.Granting) :
    ∃ s, loggerInitFileLogger (some filename) maxFileSize maxBackupFiles s₀ = (true, s)
      ∧ Ready filename (effectiveMaxFileSize maxFileSize) maxBackupFiles.toNat s
      ∧ s.sLogLevel = s₀.sLogLevel
      ∧ slots filename s.disk = RotatingLog.touch (slots filename s₀.disk) := by
  obtain ⟨hok, hopen⟩ := openAppend_leaves hs₀ filename
  obtain ⟨hsize, hquery⟩ := getFileSize_granting hopen.granting filename
  unfold loggerInitFileLogger
  dsimp only
  rw [if_neg (not_lt.mpr hname), if_pos hok]
  refine ⟨_, rfl, ?_, rfl, by rw [hquery.slots, hopen.slots]⟩
  exact
    { granting := hquery.granting
      initialized := rfl
      logger := hasFlag_or_right _ _
      name := rfl
      output := rfl
      limit := by
        unfold effectiveMaxFileSize
        rw [Int.toNat_of_nonneg]
        unfold kDefaultMaxFileSize
        split <;> omega
      backups := rfl
      exist := by
        rw [hquery.slots, hopen.slots, RotatingLog.touch_zero]
        rfl
      counted := by rw [hquery.slots, hsize] }

section Session

variable {maxFileSize : ℤ} {maxBackupFiles : UInt8}
variable (hname : filename.utf8ByteSize ≤ kMaxFileNameLen) (hs : s.disk.Granting)
include hname hs

/-- **The logger refines the rotating log** over a whole session, and its counter is right at the
    end. -/
theorem session_appends (calls : List Call) :
    ∃ s', session filename maxFileSize maxBackupFiles calls s = some s'
      ∧ slots filename s'.disk = RotatingLog.appends String.utf8ByteSize
          (effectiveMaxFileSize maxFileSize) maxBackupFiles.toNat
          (RotatingLog.touch (slots filename s.disk))
          ((due s.sLogLevel calls).map Record.pieces)
      ∧ s'.sFlog.currentFileSize
          = RotatingLog.size String.utf8ByteSize ((slots filename s'.disk 0).getD []) := by
  obtain ⟨s₁, hinit, hs₁, hlevel, hslots⟩ :=
    loggerInitFileLogger_ready hname maxFileSize maxBackupFiles hs
  obtain ⟨s', hrun, hs', hslots'⟩ := run_appends calls hs₁
  rw [hslots, hlevel] at hslots'
  refine ⟨s', ?_, hslots', hs'.counted⟩
  unfold session
  rw [hinit]
  exact hrun

/-- Three lines of 17 bytes. -/
def warnings : List Call := List.replicate 3 (.log ⟨.warn, "", 1, "a.c", 7, "full"⟩)

/-- **What is kept.** Without backups everything is; with `k` backups, either everything is or at
    least `k` times the maximal size of a file, the end of what was logged. -/
theorem session_retains (calls : List Call)
    (hfull : RotatingLog.Full String.utf8ByteSize (effectiveMaxFileSize maxFileSize)
      maxBackupFiles.toNat (slots filename s.disk)) :
    ∃ s' kept, session filename maxFileSize maxBackupFiles calls s = some s'
      ∧ RotatingLog.history maxBackupFiles.toNat (slots filename s'.disk) = kept
      ∧ kept <:+ RotatingLog.history maxBackupFiles.toNat (slots filename s.disk)
          ++ (due s.sLogLevel calls).flatMap Record.pieces
      ∧ (kept = RotatingLog.history maxBackupFiles.toNat (slots filename s.disk)
            ++ (due s.sLogLevel calls).flatMap Record.pieces
          ∨ maxBackupFiles ≠ 0 ∧ maxBackupFiles.toNat * effectiveMaxFileSize maxFileSize
              ≤ RotatingLog.size String.utf8ByteSize kept) := by
  obtain ⟨s', hsession, hslots, -⟩ := session_appends hname hs calls
  have hexist : (RotatingLog.touch (slots filename s.disk) 0).isSome := by
    rw [RotatingLog.touch_zero]
    rfl
  refine ⟨s', _, hsession, rfl, ?_, ?_⟩
  all_goals rw [hslots, List.flatMap_def, ← RotatingLog.history_touch _ (slots filename s.disk)]
  · exact RotatingLog.history_appends hexist _
  · by_cases hk : maxBackupFiles = 0
    · subst hk
      exact Or.inl (RotatingLog.history_appends_zero hexist _)
    · exact (RotatingLog.appends_retain hfull.touch hexist _).imp_right
        fun hcomplete => ⟨hk, hcomplete.le_size_history⟩

omit hname hs in
theorem session_retains_warnings :
    ∃ s' kept, session "log" 10 1 warnings (initial Disk.empty) = some s'
      ∧ RotatingLog.history 1 (slots "log" s'.disk) = kept
      ∧ kept <:+ RotatingLog.history 1 (slots "log" Disk.empty)
          ++ (due 2 warnings).flatMap Record.pieces
      ∧ (kept = RotatingLog.history 1 (slots "log" Disk.empty)
            ++ (due 2 warnings).flatMap Record.pieces
          ∨ (1 : UInt8) ≠ 0 ∧ 1 * 10 ≤ RotatingLog.size String.utf8ByteSize kept) :=
  session_retains (show "log".utf8ByteSize ≤ kMaxFileNameLen by decide)
    (show (initial Disk.empty).disk.Granting from fun _ => rfl) warnings
    ⟨fun _ _ _ h => (by cases h), fun _ _ h => (by cases h)⟩

end Session

end CLogTest.CLogger.OnDisk

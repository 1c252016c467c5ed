import Mathlib.Data.List.Pairwise
import CLogTest.Storage.Generations
import CLogTest.Zlog.Rotater

set_option autoImplicit false

/-! # Rotation by several processes (`src/zlog/rule.c`, `src/zlog/rotater.c`)

Threads of several processes log to one file and rotate it. Each of them opens the file, writes a
message and closes it again; when the file has grown too large, the thread takes the mutex of its
process and a lock on the lock file, and renames. System calls of different threads interleave in
any order, and any of them may fail. No two rotations overlap (`run_exclusive`), and the files read
by age keep what each thread wrote in its order (`run_keeps_order`). -/

namespace CLogTest.Zlog.Rotation

/-- Where a thread is in `zlog_rule_output_static_file_rotate` and the functions of the rotater. -/
inductive Pc (μ : Type)
  | idle
  /-- The log file is open. -/
  | opened (fd : ℕ) (msg : μ)
  /-- The message is written. -/
  | written (msg : μ)
  /-- `zlog_rotater_trylock` is called. -/
  | trying (msg : μ)
  /-- The mutex is held. -/
  | mutexed (msg : μ)
  /-- The lock on the lock file is held as well. -/
  | locked (msg : μ)
  /-- `zlog_rotater_lsmv` is called. -/
  | listing
  /-- `zlog_rotater_roll_files` has `i` files to go. -/
  | rolling (files : ZcArraylist ZlogFile) (i : ℕ)
  /-- `zlog_rotater_seq_files` has gone through `i` files. -/
  | sequencing (files : ZcArraylist ZlogFile) (i : ℕ)
  /-- The log file is to become the archive with number `j`. -/
  | moving (j : ℕ)
  /-- `zlog_rotater_unlock` is called. -/
  | unlocking
  /-- The lock on the lock file is released. -/
  | unlocked

/-- The threads and the rule they log by. -/
structure Setting (ι π μ : Type) where
  /-- The process that a thread runs in. -/
  process : ι → π
  bytes : μ → ℕ
  rotater : Rotater
  archiveMaxSize : ℕ

/-- What the threads share, and where each of them is. Files are numbered in the order in which they
    are created. -/
structure System (ι π μ : Type) where
  /-- The directory. -/
  files : Text → Option ℕ
  /-- The messages in a file, with the threads that wrote them. -/
  contents : ℕ → List (ι × μ)
  next : ℕ
  /-- `lock_mutex` of each process. -/
  mutex : π → Option ι
  /-- The process that holds the lock on the lock file. -/
  fileLock : Option π
  pc : ι → Pc μ

variable {ι π μ : Type} [DecidableEq ι] [DecidableEq π]

namespace System

def goto (S : System ι π μ) (a : ι) (p : Pc μ) : System ι π μ :=
  { S with pc := Function.update S.pc a p }

/-- `open` with `O_APPEND | O_CREAT`. -/
def openFile (S : System ι π μ) (path : Text) : ℕ × System ι π μ :=
  match S.files path with
  | some fd => (fd, S)
  | none =>
      (S.next, { S with files := Function.update S.files path (some S.next), next := S.next + 1 })

/-- `write`. -/
def append (S : System ι π μ) (fd : ℕ) (a : ι) (msg : μ) : System ι π μ :=
  { S with contents := Function.update S.contents fd (S.contents fd ++ [(a, msg)]) }

/-- `unlink`. -/
def unlink (S : System ι π μ) (path : Text) : System ι π μ :=
  { S with files := Function.update S.files path none }

/-- `rename`. -/
def rename (S : System ι π μ) (src dst : Text) : System ι π μ :=
  { S with files := Function.update (Function.update S.files src none) dst (S.files src) }

def setMutex (S : System ι π μ) (p : π) (owner : Option ι) : System ι π μ :=
  { S with mutex := Function.update S.mutex p owner }

def setFileLock (S : System ι π μ) (owner : Option π) : System ι π μ :=
  { S with fileLock := owner }

/-- `st_size`. -/
def size (S : System ι π μ) (bytes : μ → ℕ) (fd : ℕ) : ℕ :=
  ((S.contents fd).map fun entry => bytes entry.2).sum

end System

/-- The rounds of `zlog_rotater_roll_files` that remove a file. -/
def rollUnlinks (r : Rotater) (i : ℕ) : Prop := 0 < r.maxCount ∧ r.maxCount - 1 ≤ i

/-- The rounds of `zlog_rotater_seq_files` that remove a file. -/
def seqUnlinks (r : Rotater) (len i : ℕ) : Prop :=
  0 < r.maxCount ∧ (i : ℤ) < len - r.maxCount

/-- The number of the next archive in `zlog_rotater_seq_files`. -/
def seqNext (files : ZcArraylist ZlogFile) : Option ℕ :=
  if files.array.length = 0 then some 0
  else (files.get (files.array.length - 1)).map fun f =>
    (max ((files.array.length : ℤ) - 1) f.index + 1).toNat

/-- A system call of thread `a`, or a step of it that calls nothing; the label is the message
    written, if any. A call that fails leads to where the code gives up. -/
inductive Step (cfg : Setting ι π μ) (S : System ι π μ) :
    Option (ι × μ) → System ι π μ → Prop
  | start (a : ι) (msg : μ) (h : S.pc a = .idle) :
      Step cfg S none
        ((S.openFile cfg.rotater.basePath).2.goto a
          (.opened (S.openFile cfg.rotater.basePath).1 msg))
  | write (a : ι) (fd : ℕ) (msg : μ) (h : S.pc a = .opened fd msg) :
      Step cfg S (some (a, msg)) ((S.append fd a msg).goto a (.written msg))
  | writeFails (a : ι) (fd : ℕ) (msg : μ) (h : S.pc a = .opened fd msg) :
      Step cfg S none (S.goto a .idle)
  | tooLong (a : ι) (msg : μ) (h : S.pc a = .written msg)
      (hlen : cfg.archiveMaxSize < cfg.bytes msg) : Step cfg S none (S.goto a .idle)
  | small (a : ι) (msg : μ) (fd : ℕ) (h : S.pc a = .written msg)
      (hfd : S.files cfg.rotater.basePath = some fd)
      (hsize : S.size cfg.bytes fd + cfg.bytes msg < cfg.archiveMaxSize) :
      Step cfg S none (S.goto a .idle)
  | statFails (a : ι) (msg : μ) (h : S.pc a = .written msg) : Step cfg S none (S.goto a .idle)
  | large (a : ι) (msg : μ) (fd : ℕ) (h : S.pc a = .written msg)
      (hlen : cfg.bytes msg ≤ cfg.archiveMaxSize)
      (hfd : S.files cfg.rotater.basePath = some fd)
      (hsize : cfg.archiveMaxSize ≤ S.size cfg.bytes fd + cfg.bytes msg) :
      Step cfg S none (S.goto a (.trying msg))
  | mutexBusy (a : ι) (msg : μ) (h : S.pc a = .trying msg) : Step cfg S none (S.goto a .idle)
  | mutexLock (a : ι) (msg : μ) (h : S.pc a = .trying msg)
      (hfree : S.mutex (cfg.process a) = none) :
      Step cfg S none ((S.setMutex (cfg.process a) (some a)).goto a (.mutexed msg))
  | lockBusy (a : ι) (msg : μ) (h : S.pc a = .mutexed msg) :
      Step cfg S none ((S.setMutex (cfg.process a) none).goto a .idle)
  | lock (a : ι) (msg : μ) (h : S.pc a = .mutexed msg)
      (hfree : S.fileLock = none ∨ S.fileLock = some (cfg.process a)) :
      Step cfg S none ((S.setFileLock (some (cfg.process a))).goto a (.locked msg))
  | rotateStatFails (a : ι) (msg : μ) (h : S.pc a = .locked msg) :
      Step cfg S none (S.goto a .unlocking)
  | rotateSmall (a : ι) (msg : μ) (fd : ℕ) (h : S.pc a = .locked msg)
      (hfd : S.files cfg.rotater.basePath = some fd)
      (hsize : S.size cfg.bytes fd + cfg.bytes msg ≤ cfg.archiveMaxSize) :
      Step cfg S none (S.goto a .unlocking)
  | rotateLarge (a : ι) (msg : μ) (fd : ℕ) (h : S.pc a = .locked msg)
      (hfd : S.files cfg.rotater.basePath = some fd)
      (hsize : cfg.archiveMaxSize < S.size cfg.bytes fd + cfg.bytes msg) :
      Step cfg S none (S.goto a .listing)
  | globFails (a : ι) (h : S.pc a = .listing) : Step cfg S none (S.goto a .unlocking)
  | glob (a : ι) (pathv : List Text) (files : ZcArraylist ZlogFile) (h : S.pc a = .listing)
      (hnodup : pathv.Nodup)
      (hpathv : ∀ path, path ∈ pathv ↔ (S.files path).isSome ∧ cfg.rotater.globMatches path)
      (hfiles : addArchiveFiles cfg.rotater pathv = some files) :
      Step cfg S none (S.goto a
        (match cfg.rotater.mvType with
        | .rolling => .rolling files files.array.length
        | .sequence => .sequencing files 0))
  | rollUnlink (a : ι) (files : ZcArraylist ZlogFile) (i : ℕ) (f : ZlogFile)
      (h : S.pc a = .rolling files (i + 1)) (hf : files.get i = some f)
      (hunlink : rollUnlinks cfg.rotater i) (hexist : (S.files f.path).isSome) :
      Step cfg S none ((S.unlink f.path).goto a (.rolling files i))
  | rollRename (a : ι) (files : ZcArraylist ZlogFile) (i : ℕ) (f : ZlogFile) (path : Text)
      (h : S.pc a = .rolling files (i + 1)) (hf : files.get i = some f)
      (hunlink : ¬ rollUnlinks cfg.rotater i)
      (hpath : cfg.rotater.newPath (i + 1) = some path) (hexist : (S.files f.path).isSome) :
      Step cfg S none ((S.rename f.path path).goto a (.rolling files i))
  | rollFails (a : ι) (files : ZcArraylist ZlogFile) (i : ℕ)
      (h : S.pc a = .rolling files (i + 1)) : Step cfg S none (S.goto a .unlocking)
  | rolled (a : ι) (files : ZcArraylist ZlogFile) (h : S.pc a = .rolling files 0) :
      Step cfg S none (S.goto a (.moving 0))
  | seqUnlink (a : ι) (files : ZcArraylist ZlogFile) (i : ℕ) (f : ZlogFile)
      (h : S.pc a = .sequencing files i) (hf : files.get i = some f)
      (hunlink : seqUnlinks cfg.rotater files.array.length i)
      (hexist : (S.files f.path).isSome) :
      Step cfg S none ((S.unlink f.path).goto a (.sequencing files (i + 1)))
  | seqKeep (a : ι) (files : ZcArraylist ZlogFile) (i : ℕ)
      (h : S.pc a = .sequencing files i) (hi : i < files.array.length)
      (hkeep : ¬ seqUnlinks cfg.rotater files.array.length i) :
      Step cfg S none (S.goto a (.sequencing files (i + 1)))
  | seqFails (a : ι) (files : ZcArraylist ZlogFile) (i : ℕ)
      (h : S.pc a = .sequencing files i) : Step cfg S none (S.goto a .unlocking)
  | sequenced (a : ι) (files : ZcArraylist ZlogFile) (j : ℕ)
      (h : S.pc a = .sequencing files files.array.length) (hj : seqNext files = some j) :
      Step cfg S none (S.goto a (.moving j))
  | move (a : ι) (j : ℕ) (path : Text) (h : S.pc a = .moving j)
      (hpath : cfg.rotater.newPath j = some path)
      (hexist : (S.files cfg.rotater.basePath).isSome) :
      Step cfg S none ((S.rename cfg.rotater.basePath path).goto a .unlocking)
  | moveFails (a : ι) (j : ℕ) (h : S.pc a = .moving j) : Step cfg S none (S.goto a .unlocking)
  | unlock (a : ι) (h : S.pc a = .unlocking) :
      Step cfg S none ((S.setFileLock none).goto a .unlocked)
  | unlockFails (a : ι) (h : S.pc a = .unlocking) : Step cfg S none (S.goto a .unlocked)
  | unlockMutex (a : ι) (h : S.pc a = .unlocked) :
      Step cfg S none ((S.setMutex (cfg.process a) none).goto a .idle)

/-- Any interleaving of the threads, with the messages that are written in it. -/
inductive Run (cfg : Setting ι π μ) (S : System ι π μ) :
    List (ι × μ) → System ι π μ → Prop
  | refl : Run cfg S [] S
  | step {written : List (ι × μ)} {label : Option (ι × μ)} {S' S'' : System ι π μ}
      (run : Run cfg S written S') (step : Step cfg S' label S'') :
      Run cfg S (written ++ label.toList) S''

/-- Before the first thread starts. -/
structure Start (cfg : Setting ι π μ) (S : System ι π μ) : Prop where
  files : ∀ path, path = cfg.rotater.basePath ∨ cfg.rotater.globMatches path → S.files path = none
  contents : ∀ fd, S.contents fd = []
  next : S.next = 0
  mutex : ∀ p, S.mutex p = none
  fileLock : S.fileLock = none
  idle : ∀ a, S.pc a = .idle

/-- The induction over the steps of a run, for what depends on the messages written as well. -/
theorem Run.invariant {cfg : Setting ι π μ} {S S' : System ι π μ} {written : List (ι × μ)}
    (Inv : List (ι × μ) → System ι π μ → Prop) (run : Run cfg S written S') (hstart : Inv [] S)
    (hstep : ∀ written S label S', Inv written S → Step cfg S label S' →
      Inv (written ++ label.toList) S') : Inv written S' := by
  induction run with
  | refl => exact hstart
  | step _ step ih => exact hstep _ _ _ _ ih step

/-! ## Rotations do not overlap -/

def Pc.holdsMutex : Pc μ → Prop
  | .idle | .opened _ _ | .written _ | .trying _ => False
  | _ => True

def Pc.holdsLock : Pc μ → Prop
  | .locked _ | .listing | .rolling _ _ | .sequencing _ _ | .moving _ | .unlocking => True
  | _ => False

theorem Pc.holdsLock.holdsMutex {p : Pc μ} (h : p.holdsLock) : p.holdsMutex := by
  cases p <;> first | exact trivial | exact h.elim

/-- The locks are held by the threads that think so. -/
structure Locked (cfg : Setting ι π μ) (S : System ι π μ) : Prop where
  mutex : ∀ a, (S.pc a).holdsMutex → S.mutex (cfg.process a) = some a
  fileLock : ∀ a, (S.pc a).holdsLock → S.fileLock = some (cfg.process a)

variable {cfg : Setting ι π μ} {S S' : System ι π μ} {label : Option (ι × μ)}

omit [DecidableEq ι] [DecidableEq π] in
theorem Locked.unique (h : Locked cfg S) {a b : ι} (ha : (S.pc a).holdsLock)
    (hb : (S.pc b).holdsLock) : a = b := by
  have hprocess : cfg.process a = cfg.process b :=
    Option.some.inj ((h.fileLock a ha).symm.trans (h.fileLock b hb))
  have hmutex := h.mutex a ha.holdsMutex
  rw [hprocess, h.mutex b hb.holdsMutex] at hmutex
  exact (Option.some.inj hmutex).symm

omit [DecidableEq π] in
/-- A thread goes on with the locks it has, or fewer. -/
theorem Locked.goto (h : Locked cfg S) {a : ι} {p : Pc μ}
    (hmutex : p.holdsMutex → (S.pc a).holdsMutex) (hlock : p.holdsLock → (S.pc a).holdsLock)
    (hS : S'.mutex = S.mutex ∧ S'.fileLock = S.fileLock ∧ S'.pc = S.pc) :
    Locked cfg (S'.goto a p) where
  mutex b hb := by
    show S'.mutex _ = _
    rw [hS.1]
    refine h.mutex b ?_
    by_cases hba : b = a
    · subst hba
      simp only [System.goto, Function.update_self] at hb
      exact hmutex hb
    · simpa [System.goto, hba, hS.2.2] using hb
  fileLock b hb := by
    show S'.fileLock = _
    rw [hS.2.1]
    refine h.fileLock b ?_
    by_cases hba : b = a
    · subst hba
      simp only [System.goto, Function.update_self] at hb
      exact hlock hb
    · simpa [System.goto, hba, hS.2.2] using hb

/-- A thread gives the mutex back. -/
theorem Locked.release (h : Locked cfg S) {a : ι} (hmutex : (S.pc a).holdsMutex) :
    Locked cfg ((S.setMutex (cfg.process a) none).goto a .idle) where
  mutex b hb := by
    by_cases hba : b = a
    · subst hba
      simp [System.goto, Pc.holdsMutex] at hb
    · have hb' := h.mutex b (by simpa [System.goto, System.setMutex, hba] using hb)
      have hprocess : cfg.process b ≠ cfg.process a := by
        intro heq
        rw [heq, h.mutex a hmutex] at hb'
        exact hba (Option.some.inj hb').symm
      exact (Function.update_of_ne hprocess _ _).trans hb'
  fileLock b hb := by
    by_cases hba : b = a
    · subst hba
      simp [System.goto, Pc.holdsLock] at hb
    · exact h.fileLock b (by simpa [System.goto, System.setMutex, hba] using hb)

theorem Step.locked (h : Locked cfg S) (step : Step cfg S label S') : Locked cfg S' := by
  cases step with
  | mutexLock a msg hpc hfree =>
      constructor
      · intro b hb
        by_cases hba : b = a
        · subst hba
          exact Function.update_self ..
        · have hb' : (S.pc b).holdsMutex := by simpa [System.goto, System.setMutex, hba] using hb
          have hmutex := h.mutex b hb'
          have hprocess : cfg.process b ≠ cfg.process a := by
            intro heq
            rw [heq, hfree] at hmutex
            cases hmutex
          exact (Function.update_of_ne hprocess _ _).trans hmutex
      · intro b hb
        by_cases hba : b = a
        · subst hba
          simp [System.goto, Pc.holdsLock] at hb
        · exact h.fileLock b (by simpa [System.goto, System.setMutex, hba] using hb)
  | lock a msg hpc hfree =>
      constructor
      · intro b hb
        refine h.mutex b ?_
        by_cases hba : b = a
        · subst hba
          rw [hpc]
          exact trivial
        · simpa [System.goto, System.setFileLock, hba] using hb
      · intro b hb
        by_cases hba : b = a
        · subst hba
          rfl
        · have hb' : (S.pc b).holdsLock := by simpa [System.goto, System.setFileLock, hba] using hb
          have hlock := h.fileLock b hb'
          rcases hfree with hfree | hfree
          · rw [hfree] at hlock
            cases hlock
          · exact hfree.symm.trans hlock
  | lockBusy a msg hpc => exact h.release (by rw [hpc]; exact trivial)
  | unlockMutex a hpc => exact h.release (by rw [hpc]; exact trivial)
  | unlock a hpc =>
      constructor
      · intro b hb
        refine h.mutex b ?_
        by_cases hba : b = a
        · subst hba
          rw [hpc]
          exact trivial
        · simpa [System.goto, System.setFileLock, hba] using hb
      · intro b hb
        by_cases hba : b = a
        · subst hba
          simp [System.goto, Pc.holdsLock] at hb
        · have hb' : (S.pc b).holdsLock := by simpa [System.goto, System.setFileLock, hba] using hb
          exact absurd (h.unique hb' (by rw [hpc]; exact trivial)) hba
  | start a msg hpc =>
      have hopen : (S.openFile cfg.rotater.basePath).2.mutex = S.mutex
          ∧ (S.openFile cfg.rotater.basePath).2.fileLock = S.fileLock
          ∧ (S.openFile cfg.rotater.basePath).2.pc = S.pc := by
        unfold System.openFile
        split <;> exact ⟨rfl, rfl, rfl⟩
      exact h.goto False.elim False.elim hopen
  | glob a pathv files hpc hnodup hpathv hfiles =>
      refine h.goto ?_ ?_ ⟨rfl, rfl, rfl⟩
      all_goals
        rw [hpc]
        exact fun _ => trivial
  | _ =>
      -- The locks stay as they are.
      refine h.goto ?_ ?_ ⟨rfl, rfl, rfl⟩ <;> simp_all [Pc.holdsMutex, Pc.holdsLock]

omit [DecidableEq ι] [DecidableEq π] in
theorem Start.locked (h : Start cfg S) : Locked cfg S where
  mutex a ha := by
    rw [h.idle a] at ha
    exact ha.elim
  fileLock a ha := by
    rw [h.idle a] at ha
    exact ha.elim

/-- Threads of one process that log numbers to `a`, which is rolled over after five bytes. -/
def sample : Setting ℕ Unit ℕ where
  process _ := ()
  bytes := id
  rotater := ⟨['a'], ['a', '.', '*'], 2, 3, 0, .rolling, 1⟩
  archiveMaxSize := 5

def sampleStart : System ℕ Unit ℕ :=
  ⟨fun _ => none, fun _ => [], 0, fun _ => none, none, fun _ => .idle⟩

theorem sampleStart_start : Start sample sampleStart :=
  ⟨fun _ _ => rfl, fun _ => rfl, rfl, fun _ => rfl, rfl, fun _ => rfl⟩

theorem sample_glob (part : Text) :
    sample.rotater.globPath.take sample.rotater.numStartLen ++ part
      ++ sample.rotater.globPath.drop sample.rotater.numEndLen ≠ ['a'] := by
  intro h
  have := congrArg List.length h
  simp [sample] at this

/-- A thread writes four bytes and goes as far as the last step of the rotation. -/
theorem sample_run : ∃ S, Run sample sampleStart [(7, 4)] S ∧ S.pc 7 = .moving 0 := by
  have hnone : ∀ path, path ∈ ([] : List Text) ↔
      (Function.update sampleStart.files ['a'] (some 0) path).isSome
        ∧ sample.rotater.globMatches path := by
    intro path
    rw [iff_false_left List.not_mem_nil]
    rintro ⟨hexist, part, -, rfl⟩
    rw [Function.update_of_ne (sample_glob part)] at hexist
    exact Bool.noConfusion hexist
  refine ⟨_, .step (.step (.step (.step (.step (.step (.step (.step .refl
    (.start 7 4 ?_)) (.write 7 0 4 ?_)) (.large 7 4 0 ?_ ?_ ?_ ?_)) (.mutexLock 7 4 ?_ ?_))
    (.lock 7 4 ?_ ?_)) (.rotateLarge 7 4 0 ?_ ?_ ?_)) (.glob 7 [] ZcArraylist.new ?_ ?_ ?_ ?_))
    (.rolled 7 ZcArraylist.new ?_), ?_⟩
  all_goals first
    | rfl
    | exact List.nodup_nil
    | exact Or.inl rfl
    | exact hnone
    | decide

/-- **Rotations do not overlap**: at any time at most one thread is between taking the lock and
    giving it back. -/
theorem run_exclusive {written : List (ι × μ)} (hstart : Start cfg S) (run : Run cfg S written S')
    {a b : ι} (ha : (S'.pc a).holdsLock) (hb : (S'.pc b).holdsLock) : a = b := by
  have hlocked : Locked cfg S' := run.invariant (fun _ S => Locked cfg S) hstart.locked
    fun _ _ _ _ hS step => step.locked hS
  exact hlocked.unique ha hb

theorem run_exclusive_sample : ∃ S, Run sample sampleStart [(7, 4)] S
    ∧ ∀ a, (S.pc a).holdsLock → a = 7 := by
  obtain ⟨S, run, hpc⟩ := sample_run
  exact ⟨S, run, fun a ha => run_exclusive sampleStart_start run ha (by rw [hpc]; exact trivial)⟩

/-! ## Files are kept in the order of their age -/

/-- The log file is slot 0, the archive with number `j` is slot `j + 1`. -/
def pathOf (r : Rotater) : ℕ → Text
  | 0 => r.basePath
  | j + 1 => r.archiveName j

def slots (r : Rotater) (S : System ι π μ) : ℕ → Option ℕ := S.files ∘ pathOf r

/-- Slot `i` holds an older file than slot `j`. -/
def Older : MvType → ℕ → ℕ → Prop
  | .rolling, i, j => j < i
  | .sequence, i, j => 0 < i ∧ (j = 0 ∨ i < j)

theorem older_irrefl (mvType : MvType) (i : ℕ) : ¬ Older mvType i i := by
  cases mvType <;> simp only [Older] <;> omega

/-- The log file is the youngest. -/
theorem older_zero (mvType : MvType) {i : ℕ} (hi : i ≠ 0) : Older mvType i 0 := by
  cases mvType with
  | rolling => exact Nat.pos_of_ne_zero hi
  | sequence => exact ⟨Nat.pos_of_ne_zero hi, Or.inl rfl⟩

/-- The numbers in use are 0, …, `c`, but for a hole at `h`. -/
def Shape (s : ℕ → Option ℕ) (c h : ℕ) : Prop := ∀ j, (s (j + 1)).isSome ↔ j ≤ c ∧ j ≠ h

/-- The number at place `p` of the list. -/
def rank (h p : ℕ) : ℕ := if p < h then p else p + 1

/-- `zlog_rotater_roll_files` has `i` files to go: the hole has come down to `i`, and the files that
    are to be removed are gone up to there. -/
structure RollingAt (r : Rotater) (s : ℕ → Option ℕ) (fs : List ZlogFile) (i c h : ℕ) : Prop where
  le : i ≤ c
  file : ∀ (p : ℕ) (f : ZlogFile), fs[p]? = some f → f = ⟨rank h p, r.archiveName (rank h p)⟩
  shape : Shape s c (min i h)
  unlinked : 0 < r.maxCount → r.maxCount ≤ i → c = i
  bounded : 0 < r.maxCount → (c : ℤ) ≤ max (i : ℤ) (r.maxCount - 1)

/-- `zlog_rotater_seq_files` has gone through `i` files: those to be removed are gone up to there,
    and the others are there still. -/
structure SequencingAt (r : Rotater) (s : ℕ → Option ℕ) (fs : List ZlogFile) (i : ℕ) : Prop where
  sorted : fs.Pairwise fun f g => f.index < g.index
  file : ∀ f ∈ fs, ∃ j : ℕ, f = ⟨j, r.archiveName j⟩
  listed : ∀ j : ℕ, (s (j + 1)).isSome → ∃ p, fs[p]? = some ⟨j, r.archiveName j⟩
    ∧ (seqUnlinks r fs.length p → i ≤ p)

/-- How many archives a rotation leaves at most. In a sequence it is one more than is asked for. -/
def limit (r : Rotater) : ℤ :=
  match r.mvType with
  | .rolling => r.maxCount
  | .sequence => r.maxCount + 1

/-- The numbers in use are at most `n`. -/
def AtMost (s : ℕ → Option ℕ) (n : ℤ) : Prop :=
  ∃ numbers : List ℕ, numbers.length ≤ n ∧ ∀ j, (s (j + 1)).isSome → j ∈ numbers

/-- The number `j` is free, and no archive that is younger is in the way. -/
structure MovingAt (r : Rotater) (s : ℕ → Option ℕ) (j : ℕ) : Prop where
  free : s (j + 1) = none
  rolling : r.mvType = .rolling → j = 0
  sequence : r.mvType = .sequence → ∀ k, (s (k + 1)).isSome → k < j
  atMost : 0 < r.maxCount → AtMost s (limit r - 1)

/-- What holds of the archives while a thread is renaming them. -/
def Phase (r : Rotater) (s : ℕ → Option ℕ) : Pc μ → Prop
  | .rolling files i => r.mvType = .rolling ∧ ∃ fs c h, files.Holds fs ∧ RollingAt r s fs i c h
  | .sequencing files i => r.mvType = .sequence ∧ ∃ fs, files.Holds fs ∧ SequencingAt r s fs i
  | .moving j => MovingAt r s j
  | _ => True

/-- What holds of the directory all the time. -/
structure Directory (cfg : Setting ι π μ) (S : System ι π μ) (floor : ℕ) : Prop where
  aged : Slots.Aged (Older cfg.rotater.mvType) (slots cfg.rotater S) floor S.next
  unlimited : cfg.rotater.maxCount ≤ 0 → floor = 0
  own : ∀ path, cfg.rotater.globMatches path → (S.files path).isSome → cfg.rotater.Own path
  shape : cfg.rotater.mvType = .rolling → ∃ c h, h ≤ c ∧ Shape (slots cfg.rotater S) c h
  phase : ∀ a, Phase cfg.rotater (slots cfg.rotater S) (S.pc a)

theorem pathOf_injective {r : Rotater} (hr : r.WellFormed) : Function.Injective (pathOf r) := by
  intro i j h
  cases i with
  | zero =>
      cases j with
      | zero => rfl
      | succ j => exact absurd h.symm (hr.base j)
  | succ i =>
      cases j with
      | zero => exact absurd h (hr.base i)
      | succ j => exact congrArg Nat.succ (archiveName_injective hr h)

omit [DecidableEq ι] [DecidableEq π] in
theorem slots_unlink {r : Rotater} (hr : r.WellFormed) (S : System ι π μ) (i : ℕ) :
    slots r (S.unlink (pathOf r i)) = Slots.clear i (slots r S) :=
  Function.update_comp_eq_of_injective _ (pathOf_injective hr) i none

omit [DecidableEq ι] [DecidableEq π] in
theorem slots_rename {r : Rotater} (hr : r.WellFormed) (S : System ι π μ) (i j : ℕ) :
    slots r (S.rename (pathOf r i) (pathOf r j)) = Slots.move i j (slots r S) := by
  unfold slots System.rename
  rw [Function.update_comp_eq_of_injective _ (pathOf_injective hr),
    Function.update_comp_eq_of_injective _ (pathOf_injective hr)]
  rfl

/-- Only the archives matter. -/
theorem Phase.congr {r : Rotater} {s s' : ℕ → Option ℕ} {p : Pc μ} (h : Phase r s p)
    (hs : ∀ j, s' (j + 1) = s (j + 1)) : Phase r s' p := by
  cases p with
  | rolling files i =>
      obtain ⟨hmv, fs, c, hole, hfs, hroll⟩ := h
      refine ⟨hmv, fs, c, hole, hfs, hroll.le, hroll.file, fun j => ?_, hroll.unlinked,
        hroll.bounded⟩
      rw [hs]
      exact hroll.shape j
  | sequencing files i =>
      obtain ⟨hmv, fs, hfs, hseq⟩ := h
      refine ⟨hmv, fs, hfs, hseq.sorted, hseq.file, fun j hj => hseq.listed j ?_⟩
      rw [hs] at hj
      exact hj
  | moving j =>
      refine ⟨by rw [hs, h.free], h.rolling, fun hmv k hk => h.sequence hmv k ?_,
        fun hcount => ?_⟩
      · rw [hs] at hk
        exact hk
      · obtain ⟨numbers, hlength, hall⟩ := h.atMost hcount
        refine ⟨numbers, hlength, fun k hk => hall k ?_⟩
        rw [hs] at hk
        exact hk
  | _ => exact trivial

/-- A thread without the lock renames nothing. -/
theorem Phase.of_not_holdsLock {r : Rotater} {s : ℕ → Option ℕ} {p : Pc μ} (h : ¬ p.holdsLock) :
    Phase r s p := by
  cases p <;> first | exact trivial | exact absurd trivial h

variable {floor floor' : ℕ} {a : ι} {p : Pc μ}

omit [DecidableEq π] in
/-- Thread `a` goes on in a directory that may have changed. -/
theorem Directory.of_goto (hpc : S'.pc = S.pc)
    (haged : Slots.Aged (Older cfg.rotater.mvType) (slots cfg.rotater S') floor S'.next)
    (hunlimited : cfg.rotater.maxCount ≤ 0 → floor = 0)
    (hown : ∀ path, cfg.rotater.globMatches path → (S'.files path).isSome → cfg.rotater.Own path)
    (hshape : cfg.rotater.mvType = .rolling → ∃ c h, h ≤ c ∧ Shape (slots cfg.rotater S') c h)
    (hphase : Phase cfg.rotater (slots cfg.rotater S') p)
    (hothers : ∀ b, b ≠ a → Phase cfg.rotater (slots cfg.rotater S') (S.pc b)) :
    Directory cfg (S'.goto a p) floor := by
  refine ⟨haged, hunlimited, hown, hshape, fun b => ?_⟩
  show Phase cfg.rotater (slots cfg.rotater S') (Function.update S'.pc a p b)
  by_cases hba : b = a
  · rw [hba, Function.update_self]
    exact hphase
  · rw [Function.update_of_ne hba, hpc]
    exact hothers b hba

omit [DecidableEq π] in
/-- The directory stays as it is. -/
theorem Directory.goto (h : Directory cfg S floor)
    (hphase : Phase cfg.rotater (slots cfg.rotater S) p)
    (hS : S'.files = S.files ∧ S'.next = S.next ∧ S'.pc = S.pc) :
    Directory cfg (S'.goto a p) floor := by
  have hslots : slots cfg.rotater S' = slots cfg.rotater S := by
    unfold slots
    rw [hS.1]
  refine Directory.of_goto hS.2.2 ?_ h.unlimited ?_ ?_ ?_ fun b _ => ?_
  · rw [hslots, hS.2.1]
    exact h.aged
  · rw [hS.1]
    exact h.own
  all_goals rw [hslots]
  · exact h.shape
  · exact hphase
  · exact h.phase b

omit [DecidableEq π] in
/-- The log file is opened, and created if it is not there. -/
theorem Directory.openFile (hr : cfg.rotater.WellFormed) (h : Directory cfg S floor)
    (hp : ¬ p.holdsLock) :
    Directory cfg ((S.openFile cfg.rotater.basePath).2.goto a p) floor := by
  unfold System.openFile
  cases hbase : S.files cfg.rotater.basePath with
  | some fd => exact h.goto (.of_not_holdsLock hp) ⟨rfl, rfl, rfl⟩
  | none =>
      have hslots : ∀ next, slots cfg.rotater { S with
          files := Function.update S.files cfg.rotater.basePath (some S.next), next := next }
          = Function.update (slots cfg.rotater S) 0 (some S.next) := fun _ =>
        Function.update_comp_eq_of_injective _ (pathOf_injective hr) 0 (some S.next)
      have harchives : ∀ j, Function.update (slots cfg.rotater S) 0 (some S.next) (j + 1)
          = slots cfg.rotater S (j + 1) := fun j =>
        Function.update_of_ne (Nat.succ_ne_zero j) _ _
      refine Directory.of_goto rfl ?_ h.unlimited ?_ ?_ (.of_not_holdsLock hp) fun b _ => ?_
      · rw [hslots]
        refine h.aged.create hbase (fun j _ => ?_) (older_irrefl _ 0)
        cases cfg.rotater.mvType <;> simp [Older]
      · intro path hglob hpath
        by_cases hpath' : path = cfg.rotater.basePath
        · exact Or.inl hpath'
        · exact h.own path hglob (by simpa [hpath'] using hpath)
      · intro hmv
        obtain ⟨c, hole, hle, hshape⟩ := h.shape hmv
        refine ⟨c, hole, hle, fun j => ?_⟩
        rw [hslots, harchives]
        exact hshape j
      · rw [hslots]
        exact (h.phase b).congr harchives

omit [DecidableEq π] in
/-- The thread with the lock removes the oldest archive. -/
theorem Directory.unlink (hr : cfg.rotater.WellFormed) (h : Directory cfg S floor)
    (hlocked : Locked cfg S) (ha : (S.pc a).holdsLock) {j : ℕ}
    (hexist : (slots cfg.rotater S (j + 1)).isSome)
    (holdest : ∀ i, (slots cfg.rotater S i).isSome → i ≠ j + 1 →
      Older cfg.rotater.mvType (j + 1) i)
    (hcount : 0 < cfg.rotater.maxCount)
    (hshape : cfg.rotater.mvType = .rolling →
      ∃ c h, h ≤ c ∧ Shape (Slots.clear (j + 1) (slots cfg.rotater S)) c h)
    (hphase : Phase cfg.rotater (Slots.clear (j + 1) (slots cfg.rotater S)) p) :
    Directory cfg ((S.unlink (cfg.rotater.archiveName j)).goto a p) (floor + 1) := by
  have hslots := slots_unlink hr S (j + 1)
  rw [← hslots] at hshape hphase
  refine Directory.of_goto rfl ?_ (fun hle => absurd hcount (not_lt.mpr hle)) ?_ hshape hphase
    fun b hba => .of_not_holdsLock fun hb => hba (hlocked.unique hb ha)
  · have haged := h.aged.clear hexist holdest
    rw [← hslots] at haged
    exact haged
  · intro path hglob hpath
    refine h.own path hglob ?_
    by_cases hpath' : path = cfg.rotater.archiveName j
    · subst hpath'
      simp [System.unlink] at hpath
    · simpa [System.unlink, hpath'] using hpath

omit [DecidableEq π] in
/-- The thread with the lock moves a file to a free number that is as old. -/
theorem Directory.rename (hr : cfg.rotater.WellFormed) (h : Directory cfg S floor)
    (hlocked : Locked cfg S) (ha : (S.pc a).holdsLock) {i j : ℕ} (hij : i ≠ j + 1)
    (hfits : (cfg.rotater.archiveName j).length ≤ maxlenPath)
    (hfree : slots cfg.rotater S (j + 1) = none)
    (hsame : ∀ k, (slots cfg.rotater S k).isSome → k ≠ i →
      (Older cfg.rotater.mvType k (j + 1) → Older cfg.rotater.mvType k i)
        ∧ (Older cfg.rotater.mvType (j + 1) k → Older cfg.rotater.mvType i k))
    (hshape : cfg.rotater.mvType = .rolling →
      ∃ c h, h ≤ c ∧ Shape (Slots.move i (j + 1) (slots cfg.rotater S)) c h)
    (hphase : Phase cfg.rotater (Slots.move i (j + 1) (slots cfg.rotater S)) p) :
    Directory cfg ((S.rename (pathOf cfg.rotater i) (cfg.rotater.archiveName j)).goto a p)
      floor := by
  have hslots := slots_rename hr S i (j + 1)
  rw [← hslots] at hshape hphase
  refine Directory.of_goto rfl ?_ h.unlimited ?_ hshape hphase
    fun b hba => .of_not_holdsLock fun hb => hba (hlocked.unique hb ha)
  · have haged := h.aged.move hij hfree hsame (older_irrefl _ (j + 1))
    rw [← hslots] at haged
    exact haged
  · intro path hglob hpath
    by_cases hdst : path = cfg.rotater.archiveName j
    · exact Or.inr ⟨j, hdst, by rw [hdst]; exact hfits⟩
    · refine h.own path hglob ?_
      by_cases hsrc : path = pathOf cfg.rotater i
      · subst hsrc
        simp [System.rename, hdst] at hpath
      · simpa [System.rename, hdst, hsrc] using hpath

/-! ### The rounds of `zlog_rotater_roll_files` -/

section Rolling

variable {r : Rotater} {s : ℕ → Option ℕ} {fs : List ZlogFile} {i c h : ℕ}

/-- A file beyond the limit is removed. -/
theorem RollingAt.clear (hroll : RollingAt r s fs (i + 1) c h) (hunlink : rollUnlinks r i) :
    (∀ j, (s (j + 1)).isSome → j ≤ rank h i)
      ∧ RollingAt r (Slots.clear (rank h i + 1) s) fs i i h := by
  obtain ⟨hcount, hmax⟩ := hunlink
  have hc : c = i + 1 := hroll.unlinked hcount (by push_cast; omega)
  have hshape := hroll.shape
  subst hc
  constructor
  · intro j hj
    have := (hshape j).mp hj
    unfold rank
    split <;> omega
  · refine ⟨le_rfl, hroll.file, fun j => ?_, fun _ _ => rfl, fun _ => le_max_left _ _⟩
    by_cases hj : j = rank h i
    · rw [hj, Slots.clear_self, Option.isSome_none, Bool.false_eq_true, false_iff]
      unfold rank
      split <;> omega
    · rw [Slots.clear_of_ne (by omega), hshape j]
      unfold rank at hj
      split at hj <;> omega

/-- Another file moves up by one, if the hole is above it. -/
theorem RollingAt.move (hroll : RollingAt r s fs (i + 1) c h) (hunlink : ¬ rollUnlinks r i) :
    (rank h i ≠ i + 1 → s (i + 2) = none)
      ∧ RollingAt r (Slots.move (rank h i + 1) (i + 2) s) fs i c h := by
  have hle := hroll.le
  have hshape := hroll.shape
  have hbounded : 0 < r.maxCount → (c : ℤ) ≤ max (i : ℤ) (r.maxCount - 1) := by
    intro hcount
    have hmax : ¬ r.maxCount - 1 ≤ i := fun hmax => hunlink ⟨hcount, hmax⟩
    have := hroll.bounded hcount
    push_cast at this
    omega
  unfold rank
  split
  · next hlt =>
      have hfree : s (i + 2) = none := by
        refine Option.not_isSome_iff_eq_none.mp fun hsome => ?_
        have := (hshape (i + 1)).mp hsome
        omega
      refine ⟨fun _ => hfree, by omega, hroll.file, fun j => ?_, fun hcount hmax => ?_, hbounded⟩
      · rcases eq_or_ne j i with rfl | hji
        · rw [Slots.move_source (by omega), Option.isSome_none, Bool.false_eq_true, false_iff]
          omega
        · rcases eq_or_ne j (i + 1) with rfl | hji'
          · have := (hshape i).mpr (by omega)
            rw [Slots.move_target, this]
            simp only [true_iff]
            omega
          · rw [Slots.move_of_ne (by omega) (by omega), hshape j]
            omega
      · exact absurd ⟨hcount, by omega⟩ hunlink
  · refine ⟨fun hne => absurd rfl hne, by omega, hroll.file, fun j => ?_, fun hcount hmax => ?_,
      hbounded⟩
    · rw [Slots.move_self, hshape j]
      omega
    · exact absurd ⟨hcount, by omega⟩ hunlink

/-- What is left in the end. -/
theorem RollingAt.atMost (hmv : r.mvType = .rolling) (hroll : RollingAt r s fs 0 c h)
    (hcount : 0 < r.maxCount) : AtMost s (limit r - 1) := by
  refine ⟨(List.range c).map Nat.succ, ?_, fun j hj => ?_⟩
  · have := hroll.bounded hcount
    simp only [limit, hmv, List.length_map, List.length_range]
    push_cast at this
    omega
  · have := (hroll.shape j).mp hj
    rw [List.mem_map]
    exact ⟨j - 1, by rw [List.mem_range]; omega, by omega⟩

end Rolling

/-! ### The rounds of `zlog_rotater_seq_files` -/

section Sequencing

variable {r : Rotater} {s : ℕ → Option ℕ} {fs : List ZlogFile} {i : ℕ}

/-- Places in the list are in the order of the numbers. -/
theorem SequencingAt.lt (hseq : SequencingAt r s fs i) {p q : ℕ} {f g : ZlogFile}
    (hp : fs[p]? = some f) (hq : fs[q]? = some g) (hpq : p < q) : f.index < g.index := by
  obtain ⟨hp', rfl⟩ := List.getElem?_eq_some_iff.mp hp
  obtain ⟨hq', rfl⟩ := List.getElem?_eq_some_iff.mp hq
  exact List.pairwise_iff_getElem.mp hseq.sorted p q hp' hq' hpq

/-- The file that is removed is the oldest archive. -/
theorem SequencingAt.clear (hseq : SequencingAt r s fs i) {j : ℕ}
    (hf : fs[i]? = some ⟨j, r.archiveName j⟩) (hunlink : seqUnlinks r fs.length i) :
    (∀ k, (s (k + 1)).isSome → j ≤ k)
      ∧ SequencingAt r (Slots.clear (j + 1) s) fs (i + 1) := by
  have hlisted : ∀ k, (s (k + 1)).isSome →
      ∃ p, fs[p]? = some ⟨k, r.archiveName k⟩ ∧ i ≤ p := by
    intro k hk
    obtain ⟨p, hp, hunlinked⟩ := hseq.listed k hk
    refine ⟨p, hp, ?_⟩
    by_contra hlt
    refine hlt (hunlinked ⟨hunlink.1, ?_⟩)
    have := hunlink.2
    omega
  constructor
  · intro k hk
    obtain ⟨p, hp, hle⟩ := hlisted k hk
    rcases hle.eq_or_lt with rfl | hlt
    · rw [hf] at hp
      have := congrArg ZlogFile.index (Option.some.inj hp)
      dsimp only at this
      omega
    · have := hseq.lt hf hp hlt
      dsimp only at this
      omega
  · refine ⟨hseq.sorted, hseq.file, fun k hk => ?_⟩
    have hkj : k ≠ j := by
      rintro rfl
      rw [Slots.clear_self] at hk
      exact Bool.noConfusion hk
    rw [Slots.clear_of_ne (by omega)] at hk
    obtain ⟨p, hp, hle⟩ := hlisted k hk
    refine ⟨p, hp, fun _ => Nat.lt_of_le_of_ne hle ?_⟩
    rintro rfl
    rw [hf] at hp
    have := congrArg ZlogFile.index (Option.some.inj hp)
    dsimp only at this
    omega

/-- The next number is higher than those in use. -/
theorem SequencingAt.lt_next (hseq : SequencingAt r s fs i) {files : ZcArraylist ZlogFile}
    (hfiles : files.Holds fs) {n : ℕ} (hnext : seqNext files = some n) {k : ℕ}
    (hk : (s (k + 1)).isSome) : k < n := by
  obtain ⟨p, hp, -⟩ := hseq.listed k hk
  obtain ⟨hlt, hget⟩ := List.getElem?_eq_some_iff.mp hp
  have hlength : files.array.length = fs.length := by rw [hfiles.array, List.length_map]
  unfold seqNext at hnext
  rw [hlength, if_neg (by omega), hfiles.get] at hnext
  obtain ⟨f, hf, rfl⟩ := Option.map_eq_some_iff.mp hnext
  have hle : (k : ℤ) ≤ f.index := by
    rcases (Nat.le_sub_one_of_lt hlt).eq_or_lt with heq | hlt'
    · rw [← heq, hp] at hf
      rw [← Option.some.inj hf]
    · exact (hseq.lt hp hf hlt').le
  omega

/-- What is left in the end. -/
theorem SequencingAt.atMost (hmv : r.mvType = .sequence) (hseq : SequencingAt r s fs fs.length)
    (hcount : 0 < r.maxCount) : AtMost s (limit r - 1) := by
  refine ⟨(fs.drop (fs.length - r.maxCount.toNat)).map fun f => f.index.toNat, ?_,
    fun j hj => ?_⟩
  · simp only [limit, hmv, List.length_map, List.length_drop]
    omega
  · obtain ⟨p, hp, hunlinked⟩ := hseq.listed j hj
    obtain ⟨hlt, -⟩ := List.getElem?_eq_some_iff.mp hp
    have hkept : fs.length - r.maxCount.toNat ≤ p := by
      by_contra hgone
      have := hunlinked ⟨hcount, by omega⟩
      omega
    refine List.mem_map.mpr ⟨⟨j, r.archiveName j⟩, ?_, Int.toNat_natCast j⟩
    refine List.mem_of_getElem? (i := p - (fs.length - r.maxCount.toNat)) ?_
    rw [List.getElem?_drop, Nat.add_sub_cancel' hkept, hp]

end Sequencing

/-! ### One step -/

/-- The messages of a thread. -/
def ofThread (a : ι) (entries : List (ι × μ)) : List (ι × μ) := entries.filter fun e => e.1 = a

/-- The files hold what was written, by the order in which they were created. -/
structure Kept (S : System ι π μ) (written : List (ι × μ)) : Prop where
  fd : ∀ a fd msg, S.pc a = .opened fd msg →
    fd < S.next ∧ ∀ x, fd < x → ofThread a (S.contents x) = []
  fresh : ∀ x, S.next ≤ x → S.contents x = []
  order : ∀ a, ofThread a ((List.range S.next).flatMap S.contents) = ofThread a written

omit [DecidableEq π] in
theorem ofThread_append (a : ι) (entries entries' : List (ι × μ)) :
    ofThread a (entries ++ entries') = ofThread a entries ++ ofThread a entries' :=
  List.filter_append ..

/-- What is added to a file comes last, if the thread wrote nothing to later files. -/
theorem ofThread_flatMap_update (a : ι) (contents : ℕ → List (ι × μ)) {fd next : ℕ}
    (hfd : fd < next) (entry : ι × μ)
    (hlast : (∀ x, fd < x → ofThread a (contents x) = []) ∨ ofThread a [entry] = []) :
    ofThread a ((List.range next).flatMap
        (Function.update contents fd (contents fd ++ [entry])))
      = ofThread a ((List.range next).flatMap contents) ++ ofThread a [entry] := by
  obtain ⟨k, rfl⟩ := Nat.exists_eq_add_of_lt hfd
  have hrange : List.range (fd + k + 1)
      = List.range fd ++ fd :: (List.range k).map fun x => fd + (x + 1) := by
    rw [Nat.add_assoc, List.range_add, List.range_succ_eq_map, List.map_cons, List.map_map]
    rfl
  have hbefore : (List.range fd).flatMap (Function.update contents fd (contents fd ++ [entry]))
      = (List.range fd).flatMap contents :=
    List.flatMap_congr fun x hx => Function.update_of_ne (List.mem_range.mp hx).ne _ _
  have hafter : ((List.range k).map fun x => fd + (x + 1)).flatMap
        (Function.update contents fd (contents fd ++ [entry]))
      = ((List.range k).map fun x => fd + (x + 1)).flatMap contents := by
    refine List.flatMap_congr fun x hx => Function.update_of_ne ?_ _ _
    obtain ⟨y, -, rfl⟩ := List.mem_map.mp hx
    omega
  rw [hrange]
  simp only [List.flatMap_append, List.flatMap_cons, hbefore, hafter, Function.update_self,
    ofThread_append, List.append_assoc]
  rcases hlast with hlast | hnone
  · have hnothing : ofThread a (((List.range k).map fun x => fd + (x + 1)).flatMap contents)
        = [] := by
      refine List.filter_eq_nil_iff.mpr fun e he => ?_
      obtain ⟨x, hx, hex⟩ := List.mem_flatMap.mp he
      obtain ⟨y, -, rfl⟩ := List.mem_map.mp hx
      exact List.filter_eq_nil_iff.mp (hlast (fd + (y + 1)) (by omega)) e hex
    rw [hnothing, List.append_nil, List.nil_append]
  · rw [hnone, List.nil_append, List.append_nil]

omit [DecidableEq π] in
/-- Thread `a` goes on without writing. -/
theorem Kept.goto {written : List (ι × μ)} (h : Kept S written)
    (hp : ∀ fd msg, p ≠ .opened fd msg)
    (hS : S'.contents = S.contents ∧ S'.next = S.next ∧ S'.pc = S.pc) :
    Kept (S'.goto a p) written where
  fd b fd msg hb := by
    have hba : b ≠ a := by
      rintro rfl
      refine hp fd msg ?_
      rw [← hb]
      simp [System.goto]
    have hb' : S.pc b = .opened fd msg := by simpa [System.goto, hba, hS.2.2] using hb
    obtain ⟨hnext, hlast⟩ := h.fd b fd msg hb'
    show fd < S'.next ∧ ∀ x, fd < x → ofThread b (S'.contents x) = []
    rw [hS.1, hS.2.1]
    exact ⟨hnext, hlast⟩
  fresh x hx := by
    show S'.contents x = []
    rw [hS.1]
    exact h.fresh x (hS.2.1 ▸ hx)
  order b := by
    show ofThread b ((List.range S'.next).flatMap S'.contents) = _
    rw [hS.1, hS.2.1]
    exact h.order b

theorem Step.kept (hdir : Directory cfg S floor)
    {written : List (ι × μ)} (h : Kept S written) (step : Step cfg S label S') :
    Kept S' (written ++ label.toList) := by
  cases step with
  | start a msg hpc =>
      rw [Option.toList_none, List.append_nil]
      unfold System.openFile
      cases hbase : S.files cfg.rotater.basePath with
      | some fd =>
          -- The log file is the last file that was created.
          have hlast : fd + 1 = S.next :=
            hdir.aged.youngest (i := 0) hbase fun j _ hj => older_zero _ hj
          refine ⟨fun b fd' msg' hb => ?_, h.fresh, h.order⟩
          by_cases hba : b = a
          · subst hba
            simp only [System.goto, Function.update_self, Pc.opened.injEq] at hb
            obtain ⟨rfl, -⟩ := hb
            exact ⟨by show fd < S.next; omega, fun x hx => by
              show ofThread b (S.contents x) = []
              rw [h.fresh x (by omega)]
              rfl⟩
          · exact h.fd b fd' msg' (by simpa [System.goto, hba] using hb)
      | none =>
          have hnew : S.contents S.next = [] := h.fresh S.next le_rfl
          refine ⟨fun b fd' msg' hb => ?_, fun x hx => h.fresh x (Nat.le_of_succ_le hx), ?_⟩
          · by_cases hba : b = a
            · subst hba
              simp only [System.goto, Function.update_self, Pc.opened.injEq] at hb
              obtain ⟨rfl, -⟩ := hb
              exact ⟨Nat.lt_succ_self _, fun x hx => by
                show ofThread b (S.contents x) = []
                rw [h.fresh x hx.le]
                rfl⟩
            · obtain ⟨hnext, hlast⟩ := h.fd b fd' msg' (by simpa [System.goto, hba] using hb)
              exact ⟨Nat.lt_succ_of_lt hnext, hlast⟩
          · intro b
            show ofThread b ((List.range (S.next + 1)).flatMap S.contents) = _
            rw [List.range_succ, List.flatMap_append, List.flatMap_singleton, hnew,
              List.append_nil]
            exact h.order b
  | write a fd msg hpc =>
      obtain ⟨hnext, hlast⟩ := h.fd a fd msg hpc
      rw [Option.toList_some]
      refine ⟨fun b fd' msg' hb => ?_, fun x hx => ?_, fun b => ?_⟩
      · have hba : b ≠ a := by
          rintro rfl
          simp [System.goto] at hb
        obtain ⟨hnext', hlast'⟩ := h.fd b fd' msg' (by
          simpa [System.goto, System.append, hba] using hb)
        refine ⟨hnext', fun x hx => ?_⟩
        show ofThread b (Function.update S.contents fd _ x) = []
        by_cases hxfd : x = fd
        · subst hxfd
          rw [Function.update_self, ofThread_append, hlast' x hx, List.nil_append]
          simp [ofThread, hba.symm]
        · rw [Function.update_of_ne hxfd]
          exact hlast' x hx
      · have hxfd : x ≠ fd := by
          rintro rfl
          exact absurd hnext (not_lt.mpr hx)
        exact (Function.update_of_ne hxfd _ _).trans (h.fresh x hx)
      · show ofThread b ((List.range S.next).flatMap
          (Function.update S.contents fd (S.contents fd ++ [(a, msg)]))) = _
        rw [ofThread_flatMap_update b S.contents hnext, h.order b, ofThread_append]
        by_cases hba : b = a
        · rw [hba]
          exact Or.inl hlast
        · exact Or.inr (by simp [ofThread, Ne.symm hba])
  | glob a pathv files hpc hnodup hpathv hfiles =>
      rw [Option.toList_none, List.append_nil]
      refine h.goto ?_ ⟨rfl, rfl, rfl⟩
      cases cfg.rotater.mvType <;> simp
  | _ =>
      rw [Option.toList_none, List.append_nil]
      exact h.goto (fun _ _ => nofun) ⟨rfl, rfl, rfl⟩

omit [DecidableEq π] in
theorem Start.kept (h : Start cfg S) : Kept S [] where
  fd a fd msg hpc := by
    rw [h.idle a] at hpc
    cases hpc
  fresh x _ := h.contents x
  order a := by
    rw [h.next]
    rfl

end CLogTest.Zlog.Rotation

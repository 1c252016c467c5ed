import CLogTest.Ackermann.WrapAround
import CLogTest.CLogger
import CLogTest.LogC
import CLogTest.Slog
import CLogTest.ZfLog
import CLogTest.Zlog.Program

set_option autoImplicit false

/-! # Agreement of the test programs

Each program turns the log level of the command line into a threshold of its own: a level, a level
moved by one, a mask of flags, the name of a category. Within a run every call of the logging
function contributes the same number of messages, so comparing programs is comparing these numbers
(`length_repeated_inj`).

c-logger, log.c, zf_log and zlog agree at every documented log level. slog keeps each of its two
messages for one log level more, which shows at the log levels 2 and 4 (`agreement_iff`). -/

namespace CLogTest

/-! ## The programs -/

/-- The five test programs. -/
def backends (exts : Zlog.Extensions) : List Backend :=
  [CLogger.backend, LogC.backend, Slog.backend, ZfLog.backend, Zlog.backend exts]

/-- How many messages a call contributes: one up to log level 1, another up to log level 3. -/
def messagesPerCall (logLevel : ℕ) : ℕ := emitted (logLevel ≤ 1) (logLevel ≤ 3)

/-- The program writes these texts in every run at this log level, in environments that do not
    fail. -/
def Backend.Writes (B : Backend) (logLevel : ℕ) (m n : UInt32) (texts : List String) : Prop :=
  ∀ (prog : List Char) (w : World), w.Reliable →
    B.messages m n (levelArgs prog logLevel) w = some texts

/-- Any two programs write equally many messages. -/
def SameNumber (exts : Zlog.Extensions) (logLevel : ℕ) (m n : UInt32) : Prop :=
  ∀ B ∈ backends exts, ∀ B' ∈ backends exts, ∀ (prog prog' : List Char) (w w' : World),
    w.Reliable → w'.Reliable →
      (B.messages m n (levelArgs prog logLevel) w).map List.length
        = (B'.messages m n (levelArgs prog' logLevel) w').map List.length

/-- Every program writes the messages that are due, so that any two write equally many. -/
structure Agreement (exts : Zlog.Extensions) (logLevel : ℕ) (m n : UInt32) : Prop where
  sequence : ∀ B ∈ backends exts, B.Writes logLevel m n (repeated (messagesPerCall logLevel) m n)
  number : SameNumber exts logLevel m n

/-- Programs that write the same texts write equally many. -/
theorem sameNumber_of_writes {exts : Zlog.Extensions} {logLevel : ℕ} {m n : UInt32}
    {texts : List String} (h : ∀ B ∈ backends exts, B.Writes logLevel m n texts) :
    SameNumber exts logLevel m n := by
  intro B hB B' hB' prog prog' w w' hw hw'
  rw [h B hB prog w hw, h B' hB' prog' w' hw']

/-! ## The documented log levels -/

section Levels

variable {logLevel : ℕ} (h : logLevel ≤ 5)

include h

/-- Neither the conversion to `uint8_t` nor the step that zf_log adds wraps. -/
theorem argLevel_toNat (prog : List Char) :
    (argLevel (levelArgs prog logLevel)).toNat = logLevel
      ∧ (argLevel (levelArgs prog logLevel) + 1).toNat = logLevel + 1 := by
  have hlevel : (argLevel (levelArgs prog logLevel)).toNat = logLevel := by
    rw [argLevel_levelArgs prog h, UInt8.toNat_ofNat']
    omega
  refine ⟨hlevel, ?_⟩
  rw [UInt8.toNat_add, hlevel, UInt8.toNat_one]
  omega

theorem cLogger_writes (m n : UInt32) :
    CLogger.backend.Writes logLevel m n (repeated (messagesPerCall logLevel) m n) := by
  intro prog w hw
  rw [(CLogger.succeeds m n _ hw).messages]
  simp only [(argLevel_toNat h prog).1, messagesPerCall]

theorem logC_writes (m n : UInt32) :
    LogC.backend.Writes logLevel m n (repeated (messagesPerCall logLevel) m n) := by
  intro prog w hw
  rw [(LogC.succeeds m n _ hw).messages]
  simp only [(argLevel_toNat h prog).1, messagesPerCall]

theorem zfLog_writes (m n : UInt32) :
    ZfLog.backend.Writes logLevel m n (repeated (messagesPerCall logLevel) m n) := by
  intro prog w hw
  rw [(ZfLog.succeeds m n _ hw).messages]
  simp only [(argLevel_toNat h prog).2, Nat.reduceLeDiff, messagesPerCall]

theorem zlog_writes (exts : Zlog.Extensions) (m n : UInt32) :
    (Zlog.backend exts).Writes logLevel m n (repeated (messagesPerCall logLevel) m n) := by
  intro prog w hw
  have hlevel := (argLevel_toNat h prog).1
  rw [(Zlog.succeeds exts m n _ (by omega) hw).messages]
  simp only [hlevel, messagesPerCall]

/-- slog keeps each message one log level longer. -/
theorem slog_writes (m n : UInt32) :
    Slog.backend.Writes logLevel m n (repeated (emitted (logLevel ≤ 2) (logLevel ≤ 4)) m n) := by
  intro prog w hw
  rw [(Slog.succeeds m n _ hw).messages]
  simp only [(argLevel_toNat h prog).1]

end Levels

/-- The log levels at which the extra step of slog does not show. -/
theorem emitted_slog_iff (logLevel : ℕ) :
    emitted (logLevel ≤ 2) (logLevel ≤ 4) = messagesPerCall logLevel
      ↔ logLevel ≠ 2 ∧ logLevel ≠ 4 := by
  unfold messagesPerCall emitted
  split_ifs <;> omega

/-- **Equal numbers leave out the log levels 2 and 4.** -/
theorem ne_of_sameNumber {exts : Zlog.Extensions} {logLevel : ℕ} {m n : UInt32} (h : logLevel ≤ 5)
    (hnumber : SameNumber exts logLevel m n) : logLevel ≠ 2 ∧ logLevel ≠ 4 := by
  have hlength := hnumber Slog.backend (by simp [backends]) CLogger.backend (by simp [backends])
    [] [] World.faultless World.faultless World.faultless_reliable World.faultless_reliable
  rw [slog_writes h m n _ _ World.faultless_reliable,
    cLogger_writes h m n _ _ World.faultless_reliable, Option.map_some, Option.map_some,
    Option.some.injEq, length_repeated_inj] at hlength
  exact (emitted_slog_iff logLevel).mp hlength

/-- **When the programs agree**: at every documented log level but 2 and 4, for all arguments. -/
theorem agreement_iff (exts : Zlog.Extensions) (m n : UInt32) {logLevel : ℕ} (h : logLevel ≤ 5) :
    Agreement exts logLevel m n ↔ logLevel ≠ 2 ∧ logLevel ≠ 4 := by
  constructor
  · intro hagree
    exact ne_of_sameNumber h hagree.number
  · intro hlevel
    have hwrites : ∀ B ∈ backends exts,
        B.Writes logLevel m n (repeated (messagesPerCall logLevel) m n) := by
      intro B hB
      simp only [backends, List.mem_cons, List.not_mem_nil, or_false] at hB
      rcases hB with rfl | rfl | rfl | rfl | rfl
      · exact cLogger_writes h m n
      · exact logC_writes h m n
      · rw [← (emitted_slog_iff logLevel).mpr hlevel]
        exact slog_writes h m n
      · exact zfLog_writes h m n
      · exact zlog_writes h exts m n
    exact ⟨hwrites, sameNumber_of_writes hwrites⟩

/-- The programs agree on the benchmark at log level 3. -/
theorem agreement_benchmark_three : Agreement Zlog.Extensions.without 3 ackermannM ackermannN :=
  (agreement_iff Zlog.Extensions.without ackermannM ackermannN (by decide)).mpr
    ⟨by decide, by decide⟩

/-- At log level 2, `ackermann 0 0` makes slog write its only call twice, and c-logger once. -/
theorem slog_disagrees_two :
    Slog.backend.messages 0 0 (levelArgs "slog".toList 2) World.faultless
        = some ["A(0, 0)", "A(0, 0)"]
      ∧ CLogger.backend.messages 0 0 (levelArgs "c-logger".toList 2) World.faultless
        = some ["A(0, 0)"]
      ∧ ¬ Agreement Zlog.Extensions.without 2 0 0 := by
  have hcalls : loggedCalls 0 0 = [(0, 0)] := by
    simp [loggedCalls, callsWith, ackermann, recording]
  have hslog := slog_writes (show 2 ≤ 5 by decide) 0 0 "slog".toList World.faultless
    World.faultless_reliable
  have hcLogger := cLogger_writes (show 2 ≤ 5 by decide) 0 0 "c-logger".toList World.faultless
    World.faultless_reliable
  unfold repeated at hslog hcLogger
  rw [hcalls] at hslog hcLogger
  refine ⟨hslog.trans (by decide), hcLogger.trans (by decide), ?_⟩
  intro hagree
  exact absurd (ne_of_sameNumber (by decide) hagree.number).1 (by decide)

/-! ## What the programs report -/

/-- The control (`src/control.c`): no logger. -/
def control : Backend where
  State := World
  Handle := Unit
  initial w := w
  world w := w
  testSetup _ :=
    { setupFunc := noSetup
      loggingFunc := noLogging
      tearDownFunc := noTearDown
      logLevel := 0 }
  description := "control"

theorem control_succeeds (m n : UInt32) (argv : List (List Char)) (w : World) :
    control.Succeeds m n argv w [] := by
  have h : control.Succeeds m n argv w ((loggedCalls m n).flatMap fun _ => []) :=
    control.succeeds () (fun _ => True) (fun _ => []) rfl trivial rfl (fun _ => Emits.refl _ _)
      (fun _ => rfl)
  rwa [List.flatMap_eq_nil_iff.mpr fun _ _ => rfl] at h

/-- **Every program reports the Ackermann function modulo 2³²**, whatever it logs on the way. -/
theorem backends_report (exts : Zlog.Extensions) (m n : UInt32) {argv : List (List Char)}
    (h : (argLevel argv).toNat ≤ 9) {w : World} (hw : w.Reliable) (clock : World → ℤ)
    (showTime : ℤ → String) :
    ∀ B ∈ control :: backends exts, ∃ ticks, (B.exec clock showTime m n argv w).1
      = ⟨0, ["Starting " ++ B.description ++ " test...\n",
          B.description ++ ": runtime = " ++ showTime ticks ++ " s, result = " ++
            toString (ack m.toNat n.toNat % 2 ^ 32) ++ "\n", "Complete\n"], []⟩ := by
  have hvalue : (returned m n).toNat = ack m.toNat n.toNat % 2 ^ 32 := by
    rw [returned_eq_value, wordProc_value]
  have hsucceeds : ∀ B ∈ control :: backends exts, ∃ texts, B.Succeeds m n argv w texts := by
    intro B hB
    simp only [backends, List.mem_cons, List.not_mem_nil, or_false] at hB
    rcases hB with rfl | rfl | rfl | rfl | rfl | rfl
    · exact ⟨_, control_succeeds m n argv w⟩
    · exact ⟨_, CLogger.succeeds m n argv hw⟩
    · exact ⟨_, LogC.succeeds m n argv hw⟩
    · exact ⟨_, Slog.succeeds m n argv hw⟩
    · exact ⟨_, ZfLog.succeeds m n argv hw⟩
    · exact ⟨_, Zlog.succeeds exts m n argv h hw⟩
  intro B hB
  obtain ⟨texts, hB⟩ := hsucceeds B hB
  obtain ⟨ticks, hreport⟩ := hB.report clock showTime
  rw [hvalue] at hreport
  exact ⟨ticks, hreport⟩

end CLogTest

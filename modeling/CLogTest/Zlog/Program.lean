import CLogTest.Shared.Backend
import CLogTest.Zlog.Category
import Mathlib.Tactic.IntervalCases

set_option autoImplicit false

/-! # zlog (`src/zlog/zlog.c`, `src/zlog.c`)

The program turns its log level into the name of a category, and the configuration has one rule for
each of the categories `0`, …, `5`, from the level `debug` = 20 up to `fatal` = 120. A message is
written when its level reaches that of the rule, 20 · (L + 1) for the log level L
(`vzlog_emits`). -/

namespace CLogTest.Zlog

inductive ZlogLevel
  | debug
  | info
  | notice
  | warn
  | error
  | fatal

/-- `ZLOG_LEVEL_DEBUG`, … -/
def ZlogLevel.toFin : ZlogLevel → Fin 256
  | debug => 20
  | info => 40
  | notice => 60
  | warn => 80
  | error => 100
  | fatal => 120

/-- The static variables of `zlog.c`, and the category `c` of the program. -/
structure State where
  world : World
  isInit : Bool
  conf : Option Conf
  categories : List Category
  c : Option Category

def initial (w : World) : State := ⟨w, false, none, [], none⟩

/-! ## The library -/

/-- `zlog_init` on a file with these lines. -/
def zlogInit (exts : Extensions) (lines : List Text) (s : State) : ℤ × State :=
  if s.isInit then (-1, s)
  else
    match zlogConfNew exts lines s.world with
    | (none, w) => (-1, { s with world := w, conf := none, categories := [] })
    | (some conf, w) =>
        (0, { s with world := w, isInit := true, conf := some conf, categories := [] })

/-- `zlog_category_table_fetch_category`. -/
def zlogCategoryTableFetchCategory (name : Text) (rules : List Rule) (s : State) :
    Option Category × State :=
  match s.categories.find? fun category => category.name = name with
  | some category => (some category, s)
  | none =>
      match zlogCategoryNew name rules with
      | none => (none, s)
      | some category => (some category, { s with categories := s.categories ++ [category] })

/-- `zlog_get_category`. -/
def zlogGetCategory (cname : Text) (s : State) : Option Category × State :=
  match s.isInit, s.conf with
  | true, some conf => zlogCategoryTableFetchCategory cname conf.rules s
  | _, _ => (none, s)

/-- `vzlog`. The configuration is not reloaded: no reload period is set. -/
def vzlog (exts : Extensions) (category : Category) (level : ZlogLevel) (text : String)
    (s : State) : State :=
  if category.levelBitmap.allows level.toFin = false then s
  else if s.isInit = false then s
  else
    let levelName := (s.conf.bind fun conf => zlogLevelListGet conf.levels level.toFin).elim ""
      fun level => String.ofList level.strUppercase
    { s with world := (zlogCategoryOutput exts category level.toFin levelName text s.world).2 }

/-- `zlog_fini`. -/
def zlogFini (s : State) : State :=
  if s.isInit then { s with isInit := false, conf := none, categories := [] } else s

/-! ## The test program -/

/-- `_zlog_setup`. The buffer for the name of the category has room for one digit. -/
def zlogSetup (exts : Extensions) (logLevel : UInt8) (s : State) : Option Unit × State :=
  let (rc, s) := zlogInit exts zlogConf s
  if rc ≠ 0 then (none, { s with world := s.world.complain "1\n" })
  else
    let levelName := Nat.toDigits 10 logLevel.toNat
    let (c, s) := zlogGetCategory levelName s
    let s := { s with c := c }
    if c.isNone then (none, { s with world := s.world.complain "2\n" }) else (some (), s)

/-- `zlog_info` and `zlog_warn` on the category `c`, which is not null. -/
def zlog (exts : Extensions) (level : ZlogLevel) (text : String) (s : State) : State :=
  match s.c with
  | none => s
  | some category => vzlog exts category level text s

/-- `_zlog_logging`. -/
def zlogLogging (exts : Extensions) (m n : UInt32) (s : State) : State :=
  let s := zlog exts .info (payload m n) s
  zlog exts .warn (payload m n) s

/-- `_zlog_tear_down`. -/
def zlogTearDown (_stream : Unit) (s : State) : State := zlogFini s

/-- `main`. -/
def backend (exts : Extensions) : Backend where
  State := State
  Handle := Unit
  initial := initial
  world := State.world
  testSetup argv :=
    { setupFunc := zlogSetup exts
      loggingFunc := zlogLogging exts
      tearDownFunc := zlogTearDown
      logLevel := argLevel argv }
  description := "zlog"

/-! ## The category of a log level -/

/-- The category of a log level has the rule at this index, if there is one. -/
theorem selectedRules_programRules (levels : Levels) {logLevel : ℕ} (h : logLevel ≤ 9) :
    selectedRules (Nat.toDigits 10 logLevel) (programRules levels)
      = ((programRules levels)[logLevel]?).toList := by
  interval_cases logLevel <;> rfl

theorem programRules_plain (levels : Levels) : ∀ rule ∈ programRules levels, rule.Plain := by
  intro rule hrule
  simp only [programRules, List.mem_cons, List.not_mem_nil, or_false] at hrule
  rcases hrule with rfl | rfl | rfl | rfl | rfl | rfl <;> exact ⟨rfl, nofun⟩

/-- The rule of log level L admits the levels from 20 · (L + 1) on. -/
theorem programRules_allows {levels : Levels} (hlevels : zlogLevelListNew = some levels)
    {logLevel : ℕ} {rule : Rule} (h : (programRules levels)[logLevel]? = some rule)
    (level : Fin 256) :
    logLevel ≤ 5 ∧ (rule.levelBitmap.allows level = true ↔ 20 * (logLevel + 1) ≤ level.val) := by
  obtain ⟨levels', hlevels', hnumbers⟩ := zlogLevelListNew_numbers
  obtain rfl : levels' = levels := Option.some.inj (hlevels'.symm.trans hlevels)
  simp only [List.map_cons, List.map_nil, List.cons.injEq, and_true] at hnumbers
  obtain ⟨h0, h1, h2, h3, h4, h5⟩ := hnumbers
  have hlt : logLevel < 6 := (List.getElem?_eq_some_iff.mp h).1
  refine ⟨by omega, ?_⟩
  rw [rule.bitmap_allows]
  interval_cases logLevel <;> obtain rfl := Option.some.inj h <;>
    simp only [fromLevel, CompareChar.admits, decide_eq_true_eq, h0, h1, h2, h3, h4, h5] <;> omega

/-- What the category of a log level writes. -/
theorem categoryMessages_eq {levels : Levels} (hlevels : zlogLevelListNew = some levels)
    {logLevel : ℕ} (h : logLevel ≤ 9) {category : Category}
    (hfit : category.fitRules = selectedRules (Nat.toDigits 10 logLevel) (programRules levels))
    (level : Fin 256) (text : String) :
    categoryMessages category level text
      = if logLevel ≤ 5 ∧ 20 * (logLevel + 1) ≤ level.val then [text] else [] := by
  unfold categoryMessages
  rw [hfit, selectedRules_programRules levels h]
  cases hrule : (programRules levels)[logLevel]? with
  | none =>
      have hlen : 6 ≤ logLevel := List.getElem?_eq_none_iff.mp hrule
      rw [if_neg (by omega)]
      rfl
  | some rule =>
      obtain ⟨hle, hallows⟩ := programRules_allows hlevels hrule level
      rw [Option.toList_some, List.flatMap_singleton]
      simp only [hallows, hle, true_and]

/-! ## What is logged -/

/-- The library is set up and the category is the one of the log level, in an environment that does
    not fail. -/
structure Ready (logLevel : ℕ) (s : State) : Prop where
  reliable : s.world.Reliable
  init : s.isInit = true
  category : ∃ levels category, zlogLevelListNew = some levels ∧ s.c = some category ∧
    category.fitRules = selectedRules (Nat.toDigits 10 logLevel) (programRules levels)

/-- **The rule of the category decides**: the early return on the bitmap loses no message. -/
theorem zlog_emits (exts : Extensions) {logLevel : ℕ} (h : logLevel ≤ 9) (level : ZlogLevel)
    (text : String) :
    Emits (Ready logLevel) (fun s => s.world.payloads) (zlog exts level text)
      (if logLevel ≤ 5 ∧ 20 * (logLevel + 1) ≤ level.toFin.val then [text] else []) := by
  refine .of_forall fun s hs => ?_
  obtain ⟨levels, category, hlevels, hc, hfit⟩ := hs.category
  rw [← categoryMessages_eq hlevels h hfit]
  have hplain : ∀ rule ∈ category.fitRules, rule.Plain := by
    rw [hfit, selectedRules_programRules levels h]
    intro rule hrule
    exact programRules_plain levels rule (List.mem_of_getElem? (Option.mem_toList.mp hrule))
  have hzlog : zlog exts level text s = vzlog exts category level text s := by
    unfold zlog
    rw [hc]
  rw [hzlog]
  unfold vzlog
  by_cases hneedless : category.levelBitmap.allows level.toFin = false
  · rw [if_pos hneedless, categoryMessages_of_needless text hneedless, List.append_nil]
    exact ⟨hs, rfl⟩
  · rw [if_neg hneedless, if_neg (by simp [hs.init])]
    have hout := zlogCategoryOutput_emits exts hplain level.toFin
    exact ⟨⟨(hout _ text).inv _ hs.reliable, hs.init, hs.category⟩,
      (hout _ text).trace_eq _ hs.reliable⟩

/-- The set-up of the program. -/
theorem zlogSetup_ready (exts : Extensions) {logLevel : UInt8} (h : logLevel.toNat ≤ 9) {w : World}
    (hw : w.Reliable) :
    ∃ s, zlogSetup exts logLevel (initial w) = (some (), s) ∧ Ready logLevel.toNat s
      ∧ s.world.payloads = w.payloads := by
  obtain ⟨levels, hlevels, -⟩ := zlogLevelListNew_numbers
  obtain ⟨hconf, hsilent⟩ := zlogConfNew_of_reliable exts zlogConf hlevels hw
  rw [zlogConf_rules] at hconf
  have hlen : ¬ maxlenPath < (Nat.toDigits 10 logLevel.toNat).length := by
    generalize logLevel.toNat = l at h
    interval_cases l <;> decide
  obtain ⟨category, hcategory⟩ : ∃ category,
      zlogCategoryNew (Nat.toDigits 10 logLevel.toNat) (programRules levels) = some category := by
    unfold zlogCategoryNew
    rw [if_neg hlen]
    exact ⟨_, rfl⟩
  have hfit := (zlogCategoryNew_fitRules hcategory).2
  obtain ⟨conf, w', hnew⟩ : ∃ conf w', zlogConfNew exts zlogConf w = (conf, w') := ⟨_, _, rfl⟩
  rw [hnew] at hconf hsilent
  obtain rfl : conf = _ := hconf
  unfold zlogSetup zlogInit initial zlogGetCategory zlogCategoryTableFetchCategory
  simp only [hnew, hcategory, Bool.false_eq_true, if_false, ne_eq, not_true_eq_false,
    List.find?_nil, Option.isNone_some]
  exact ⟨_, rfl, ⟨hsilent.reliable hw, rfl, levels, category, hlevels, rfl, hfit⟩,
    hsilent.payloads⟩

theorem zlogFini_payloads (s : State) : (zlogFini s).world.payloads = s.world.payloads := by
  unfold zlogFini
  split <;> rfl

/-- **What the program writes**, for every command line with a log level of one digit. -/
theorem succeeds (exts : Extensions) (m n : UInt32) (argv : List (List Char))
    (h : (argLevel argv).toNat ≤ 9) {w : World} (hw : w.Reliable) :
    (backend exts).Succeeds m n argv w
      (repeated (emitted ((argLevel argv).toNat ≤ 1) ((argLevel argv).toNat ≤ 3)) m n) := by
  obtain ⟨s, hsetup, hs, hwritten⟩ := zlogSetup_ready exts h hw
  refine (backend exts).succeeds () _ _ hsetup hs hwritten ?_ ?_
  · intro a
    have hlog := (zlog_emits exts h .info (payload a.1 a.2)).comp
      (zlog_emits exts h .warn (payload a.1 a.2))
    have hinfo : ((argLevel argv).toNat ≤ 5
        ∧ 20 * ((argLevel argv).toNat + 1) ≤ ZlogLevel.info.toFin.val)
          ↔ (argLevel argv).toNat ≤ 1 := by
      rw [show ZlogLevel.info.toFin.val = 40 from rfl]
      omega
    have hwarn : ((argLevel argv).toNat ≤ 5
        ∧ 20 * ((argLevel argv).toNat + 1) ≤ ZlogLevel.warn.toFin.val)
          ↔ (argLevel argv).toNat ≤ 3 := by
      rw [show ZlogLevel.warn.toFin.val = 80 from rfl]
      omega
    simp only [hinfo, hwarn, replicate_emitted] at hlog
    exact hlog
  · exact zlogFini_payloads

end CLogTest.Zlog

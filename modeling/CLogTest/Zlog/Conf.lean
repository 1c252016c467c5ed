import CLogTest.Zlog.Rule

set_option autoImplicit false

/-! # The configuration (`src/zlog/conf.c`, `resources/zlog.conf`)

The configuration file is read line by line into a `Conf`. A line of the section `[rules]` opens
the file it names, so reading is a step on the environment; `readLines_of_reliable` separates the
two: in an environment that does not fail, the result is that of the pure fold `Conf.add`. -/

namespace CLogTest.Zlog

def maxlenCfgLine : ℕ := 4 * maxlenPath

/-- `zlog_conf_t` while it is read: `sectionNo` is the last section begun. -/
structure Conf where
  strictInit : Bool
  defaultFormatLine : Option Text
  defaultFormat : Option Text
  levels : Levels
  formats : List Text
  rules : List Rule
  sectionNo : ℕ

/-! ## Lines -/

/-- A line without the comment at its end, unless quoted. -/
def stripComment : Bool → Text → Text
  | _, [] => []
  | inQuotation, c :: s =>
      if c = '"' then c :: stripComment (!inQuotation) s
      else if c = '#' ∧ inQuotation = false then []
      else c :: stripComment inQuotation s

/-- The loop of `zlog_conf_build_with_file`, on the lines of the file: blank lines and comments are
    skipped, and a line that ends in a backslash is continued by the next one (`pending` is what it
    begins with). -/
def logicalLines : Text → List Text → List Text
  | _, [] => []
  | pending, raw :: rest =>
      let p := skipSpace raw
      if p = [] ∨ p.head? = some '#' then logicalLines pending rest
      else
        let line := pending ++ trimRight p
        if line.getLast? = some '\\' ∧ line.length - 1 ≤ maxlenCfgLine - 30 then
          logicalLines (trimRight line.dropLast) rest
        else stripComment false line :: logicalLines [] rest

/-- The number of a section. -/
def sectionOf (name : Text) : Option ℕ :=
  if name = "global".toList then some 1
  else if name = "levels".toList then some 2
  else if name = "formats".toList then some 3
  else if name = "rules".toList then some 4
  else none

/-- The options of `[global]` that set buffers, permissions, periods and the lock file, by their
    words. Nothing in this model depends on them. -/
def otherOptions : List (List Text) :=
  [["buffer".toList, "min".toList], ["buffer".toList, "max".toList],
    ["file".toList, "perms".toList], ["rotate".toList, "lock".toList, "file".toList],
    ["reload".toList, "conf".toList, "period".toList], ["fsync".toList, "period".toList]]

/-- The words of the name of an option, three at most. -/
def optionWords (name : Text) : List Text :=
  match scanWord name with
  | none => []
  | some (word₁, rest) =>
      match scanWord rest with
      | none => [word₁]
      | some (word₂, rest) =>
          match scanWord rest with
          | none => [word₁, word₂]
          | some (word₃, _) => [word₁, word₂, word₃]

/-- A line of `[global]`. -/
def zlogConfGlobal (exts : Extensions) (line : Text) (conf : Conf) : Option Conf := do
  -- " %[^=]= %s "
  let (name, rest) ← scanUntil ['='] (skipSpace line)
  let (value, _) ← (scanChar '=' rest).bind scanWord
  let words := optionWords name
  if words.take 2 = ["strict".toList, "init".toList] then
    some { conf with strictInit := !(stricmp value "false".toList && !exts.strictInit) }
  else if words.take 2 = ["default".toList, "format".toList] then
    some { conf with defaultFormatLine := some (line.drop "default".length) }
  else if otherOptions.any fun option => words.take option.length = option then some conf
  else if conf.strictInit then none
  else some conf

/-- `zlog_conf_parse_line` up to opening the file of a rule: the configuration and the rule to be
    added. -/
def zlogConfParseLine (exts : Extensions) (line : Text) (conf : Conf) :
    Option (Conf × Option Rule) :=
  let unlessStrict : Option (Conf × Option Rule) :=
    if conf.strictInit then none else some (conf, none)
  if maxlenCfgLine < line.length then none
  else
    match line with
    | '[' :: rest => do
        let name := (scanUntil [']', ' ', '\t'] (skipSpace rest)).elim [] Prod.fst
        let sectionNo ← sectionOf name
        if sectionNo ≤ conf.sectionNo then none
        else if sectionNo = 4 then
          match conf.defaultFormatLine with
          | none => some ({ conf with sectionNo := sectionNo }, none)
          | some format =>
              let name ← exts.formatNew format
              some ({ conf with sectionNo := sectionNo, defaultFormat := some name }, none)
        else some ({ conf with sectionNo := sectionNo }, none)
    | line =>
        match conf.sectionNo with
        | 1 => (zlogConfGlobal exts line conf).map fun conf => (conf, none)
        | 2 =>
            match zlogLevelListSet conf.levels line with
            | some levels => some ({ conf with levels := levels }, none)
            | none => unlessStrict
        | 3 =>
            match exts.formatNew line with
            | some format => some ({ conf with formats := conf.formats ++ [format] }, none)
            | none => unlessStrict
        | 4 =>
            match zlogRuleParse exts conf.levels conf.defaultFormat conf.formats line with
            | some rule => some (conf, some rule)
            | none => unlessStrict
        | _ => none

/-- One line of the configuration. -/
def readLine (exts : Extensions) (line : Text) (conf : Conf) (w : World) : Option Conf × World :=
  match zlogConfParseLine exts line conf with
  | none => (none, w)
  | some (conf, none) => (some conf, w)
  | some (conf, some rule) =>
      let (ok, w) := zlogRuleOpen rule w
      if ok then (some { conf with rules := conf.rules ++ [rule] }, w)
      else if conf.strictInit then (none, w)
      else (some conf, w)

/-- All lines, up to the first one that fails. -/
def readLines (exts : Extensions) : List Text → Conf → World → Option Conf × World
  | [], conf, w => (some conf, w)
  | line :: rest, conf, w =>
      match readLine exts line conf w with
      | (none, w) => (none, w)
      | (some conf, w) => readLines exts rest conf w

/-- The configuration before the first line. -/
def Conf.start (levels : Levels) : Conf := ⟨true, none, none, levels, [], [], 0⟩

/-- `zlog_conf_new` on a file with these lines. -/
def zlogConfNew (exts : Extensions) (lines : List Text) (w : World) : Option Conf × World :=
  match zlogLevelListNew with
  | none => (none, w)
  | some levels =>
      let (found, w) := w.attempt
      if found = false then (none, w)
      else
        let (opened, w) := w.attempt
        if opened = false then (none, w)
        else readLines exts (logicalLines [] lines) (Conf.start levels) w

/-! ## Reading without failing files -/

/-- One line of the configuration, where every file can be opened. -/
def Conf.add (exts : Extensions) (conf : Conf) (line : Text) : Option Conf :=
  (zlogConfParseLine exts line conf).map fun (conf, rule) =>
    { conf with rules := conf.rules ++ rule.toList }

theorem zlogRuleOpen_of_reliable (rule : Rule) {w : World} (hw : w.Reliable) :
    (zlogRuleOpen rule w).1 = true ∧ w.Silent (zlogRuleOpen rule w).2 := by
  have hopen := World.attempt_of_reliable hw
  have hopened := w.attempt_silent
  unfold zlogRuleOpen
  split
  · simp only [hopen, if_true]
    exact ⟨World.attempt_of_reliable (hopened.reliable hw), hopened.trans (World.attempt_silent _)⟩
  · exact ⟨rfl, World.Silent.refl w⟩

theorem readLine_of_reliable (exts : Extensions) (line : Text) (conf : Conf) {w : World}
    (hw : w.Reliable) :
    (readLine exts line conf w).1 = conf.add exts line
      ∧ w.Silent (readLine exts line conf w).2 := by
  unfold readLine Conf.add
  split
  · next h => rw [h]; exact ⟨rfl, World.Silent.refl w⟩
  · next h => rw [h]; exact ⟨by simp, World.Silent.refl w⟩
  · next rule h =>
      obtain ⟨hok, hsilent⟩ := zlogRuleOpen_of_reliable rule hw
      rw [h]
      simp only [hok, if_true]
      exact ⟨rfl, hsilent⟩

/-- **Reading is a fold**, in an environment that does not fail. -/
theorem readLines_of_reliable (exts : Extensions) (lines : List Text) (conf : Conf) {w : World}
    (hw : w.Reliable) :
    (readLines exts lines conf w).1 = lines.foldlM (Conf.add exts) conf
      ∧ w.Silent (readLines exts lines conf w).2 := by
  induction lines generalizing conf w with
  | nil => exact ⟨rfl, World.Silent.refl w⟩
  | cons line rest ih =>
      obtain ⟨hconf, hsilent⟩ := readLine_of_reliable exts line conf hw
      rw [List.foldlM_cons, ← hconf, readLines]
      split
      · next h => rw [h] at hsilent ⊢; exact ⟨rfl, hsilent⟩
      · next conf' w' h =>
          rw [h] at hsilent ⊢
          obtain ⟨hrest, hrestSilent⟩ := ih conf' (hsilent.reliable hw)
          exact ⟨hrest, hsilent.trans hrestSilent⟩

theorem zlogConfNew_of_reliable (exts : Extensions) (lines : List Text) {levels : Levels}
    (hlevels : zlogLevelListNew = some levels) {w : World} (hw : w.Reliable) :
    (zlogConfNew exts lines w).1
        = (logicalLines [] lines).foldlM (Conf.add exts) (Conf.start levels)
      ∧ w.Silent (zlogConfNew exts lines w).2 := by
  have hfound := World.attempt_of_reliable hw
  have hopened := World.attempt_of_reliable (w.attempt_silent.reliable hw)
  have hsilent := w.attempt_silent.trans (World.attempt_silent _)
  obtain ⟨hconf, hread⟩ := readLines_of_reliable exts (logicalLines [] lines) (Conf.start levels)
    (hsilent.reliable hw)
  unfold zlogConfNew
  rw [hlevels]
  simp only [hfound, hopened, Bool.true_eq_false, if_false]
  exact ⟨hconf, hsilent.trans hread⟩

/-! ## The configuration of the program -/

/-- The lines of `resources/zlog.conf`. -/
def zlogConf : List Text :=
  ["[global]", "# nothing here", "", "[levels]", "# nothing here", "", "[formats]",
    "# nothing here", "", "[rules]", "0.debug   \"logs/zlog.txt\"", "1.info    \"logs/zlog.txt\"",
    "2.notice  \"logs/zlog.txt\"", "3.warn    \"logs/zlog.txt\"", "4.error   \"logs/zlog.txt\"",
    "5.fatal   \"logs/zlog.txt\""].map String.toList

/-- The rule that a line of `resources/zlog.conf` stands for: messages of a category, from the named
    level on. -/
def fromLevel (levels : Levels) (category : Char) (name : String) : Rule where
  category := [category]
  compareChar := .atLeast
  level := zlogLevelListAtoi levels name.toList
  levelBitmap := levelBitmap .atLeast (zlogLevelListAtoi levels name.toList)
  format := none
  output := .staticFile "logs/zlog.txt".toList
  bitmap_allows := levelBitmap_allows .atLeast (zlogLevelListAtoi_bound levels name.toList)

/-- **The rules of the program**, one for each log level. -/
def programRules (levels : Levels) : List Rule :=
  [fromLevel levels '0' "debug", fromLevel levels '1' "info", fromLevel levels '2' "notice",
    fromLevel levels '3' "warn", fromLevel levels '4' "error", fromLevel levels '5' "fatal"]

theorem zlogConf_rules (exts : Extensions) (levels : Levels) :
    (logicalLines [] zlogConf).foldlM (Conf.add exts) (Conf.start levels)
      = some { Conf.start levels with sectionNo := 4, rules := programRules levels } := by
  rfl

end CLogTest.Zlog

import CLogTest.Zlog.Scan

set_option autoImplicit false

/-! # Levels (`src/zlog/zc_arraylist.c`, `src/zlog/level.c`, `src/zlog/level_list.c`)

A level is a number up to 255 with a name; the levels are kept in an array list at the index of
their number. A write may lie past the end of the array, since the array grows to twice its size or
to the index, whichever is more, and in the second case the index is not inside
(`zcArraylistSet_isSome`). The default levels stay clear of that. -/

namespace CLogTest.Zlog

/-! ## Array lists -/

/-- `zc_arraylist_t`: the allocated size and the first `len` slots. -/
structure ZcArraylist (α : Type) where
  size : ℕ
  array : List (Option α)

namespace ZcArraylist

variable {α : Type}

def new : ZcArraylist α := ⟨32, []⟩

/-- The allocated size once `idx` is to be written: `zc_arraylist_expand_inner`. -/
def allocated (l : ZcArraylist α) (idx : ℕ) : ℕ :=
  if l.size ≤ idx then max (l.size * 2) idx else l.size

/-- `zc_arraylist_set`. `none` is a write past the end of the array. -/
def set (l : ZcArraylist α) (idx : ℕ) (data : α) : Option (ZcArraylist α) :=
  if l.allocated idx ≤ idx then none
  else
    let slots := l.array ++ List.replicate (idx + 1 - l.array.length) none
    some ⟨l.allocated idx, slots.set idx (some data)⟩

/-- `zc_arraylist_get`. -/
def get (l : ZcArraylist α) (i : ℕ) : Option α := (l.array[i]?).join

/-- **When a write stays inside the array.** -/
theorem set_isSome (l : ZcArraylist α) (idx : ℕ) (data : α) :
    (l.set idx data).isSome = true ↔ idx < l.size * 2 := by
  have hsize : l.allocated idx ≤ idx ↔ l.size * 2 ≤ idx := by
    unfold allocated
    split <;> omega
  unfold set
  split
  · next hle => simpa using hsize.mp hle
  · next hlt => simpa using fun hle => hlt (hsize.mpr hle)

/-- A write lengthens the list at most to the index. -/
theorem length_of_set {l l' : ZcArraylist α} {idx : ℕ} {data : α} (h : l.set idx data = some l') :
    l'.array.length = max l.array.length (idx + 1) := by
  unfold set at h
  split at h
  · exact absurd h (by simp)
  · obtain rfl := Option.some.inj h
    rw [List.length_set, List.length_append, List.length_replicate]
    omega

end ZcArraylist

/-! ## Levels -/

def maxlenPath : ℕ := 1024

/-- `zlog_level_t`: the number and the name in upper case. -/
structure Level where
  intLevel : Fin 256
  strUppercase : Text

/-- The names that `syslog_level_atoi` knows. -/
def syslogLevels : List Text :=
  ["LOG_EMERG".toList, "LOG_ALERT".toList, "LOG_CRIT".toList, "LOG_ERR".toList,
    "LOG_WARNING".toList, "LOG_NOTICE".toList, "LOG_INFO".toList, "LOG_DEBUG".toList]

/-- `zlog_level_new`, on a line such as `TRACE = 10, LOG_ERR`. -/
def zlogLevelNew (line : Text) : Option Level := do
  -- " %[^= \t] = %d ,%s", of which the last conversion may fail
  let (str, rest) ← scanUntil ['=', ' ', '\t'] (skipSpace line)
  let rest ← scanChar '=' (skipSpace rest)
  let (l, rest) ← scanInt rest
  let sl := ((scanChar ',' (skipSpace rest)).bind scanWord).elim [] Prod.fst
  if h : 0 ≤ l ∧ l ≤ 255 then
    if sl ≠ [] ∧ ¬ syslogLevels.any (stricmp sl) then none
    else if maxlenPath < str.length then none
    else some ⟨⟨l.toNat, by omega⟩, str.map Char.toUpper⟩
  else none

/-- The levels, at the index of their numbers. -/
abbrev Levels := { l : ZcArraylist Level // l.array.length ≤ 256 }

/-- `zlog_level_list_set`. -/
def zlogLevelListSet (levels : Levels) (line : Text) : Option Levels :=
  match zlogLevelNew line with
  | none => none
  | some level =>
      match h : levels.1.set level.intLevel level with
      | none => none
      | some l => some ⟨l, by
          rw [ZcArraylist.length_of_set h]
          exact max_le levels.2 level.intLevel.isLt⟩

/-- The lines of `zlog_level_list_set_default`. -/
def defaultLevels : List Text :=
  ["* = 0, LOG_INFO".toList, "DEBUG = 20, LOG_DEBUG".toList, "INFO = 40, LOG_INFO".toList,
    "NOTICE = 60, LOG_NOTICE".toList, "WARN = 80, LOG_WARNING".toList,
    "ERROR = 100, LOG_ERR".toList, "FATAL = 120, LOG_ALERT".toList,
    "UNKNOWN = 254, LOG_ERR".toList, "! = 255, LOG_INFO".toList]

/-- `zlog_level_list_new`. -/
def zlogLevelListNew : Option Levels :=
  defaultLevels.foldlM zlogLevelListSet ⟨ZcArraylist.new, Nat.zero_le _⟩

/-- `zlog_level_list_get`: the level 254 stands in for a missing one. -/
def zlogLevelListGet (levels : Levels) (l : ℕ) : Option Level :=
  (levels.1.get l).orElse fun _ => levels.1.get 254

/-- `zlog_level_list_atoi`: the number of the first level of that name, or -1. -/
def zlogLevelListAtoi (levels : Levels) (str : Text) : ℤ :=
  if str = [] then -1
  else
    match levels.1.array.findIdx? fun level => level.any fun l => stricmp str l.strUppercase with
    | some i => i
    | none => -1

/-- A level that is found has a number up to 255. -/
theorem zlogLevelListAtoi_bound (levels : Levels) (str : Text) :
    -1 ≤ zlogLevelListAtoi levels str ∧ zlogLevelListAtoi levels str ≤ 255 := by
  unfold zlogLevelListAtoi
  split
  · decide
  · split
    · next i h =>
        have hlt : i < levels.1.array.length := (List.findIdx?_eq_some_iff_findIdx_eq.mp h).1
        have hlen := levels.2
        omega
    · decide

/-- The default levels are complete: no line fails and no write leaves the array. -/
theorem zlogLevelListNew_numbers : ∃ levels, zlogLevelListNew = some levels ∧
    ["debug", "info", "notice", "warn", "error", "fatal"].map
        (fun name => zlogLevelListAtoi levels name.toList)
      = [20, 40, 60, 80, 100, 120] := by
  have h : zlogLevelListNew.map (fun levels =>
      ["debug", "info", "notice", "warn", "error", "fatal"].map
        fun name => zlogLevelListAtoi levels name.toList)
      = some [20, 40, 60, 80, 100, 120] := by decide +kernel
  exact Option.map_eq_some_iff.mp h

end CLogTest.Zlog

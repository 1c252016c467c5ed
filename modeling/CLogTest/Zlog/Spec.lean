import CLogTest.Zlog.Level
import Mathlib.Data.List.TakeDrop

set_option autoImplicit false

/-! # Conversion patterns (`src/zlog/spec.c`, `src/zlog/format.c`)

A pattern such as `%d(%F %T) %-6V - %m%n` is parsed into specs, one for each conversion and for each
text between two of them. The specs of a pattern are its parts, in their order, and the time
conversions get caches of their own, numbered through all formats of a configuration
(`zlogFormatSpecs_ok`). -/

namespace CLogTest.Zlog

/-- Why there is no spec. -/
inductive Failure
  | rejected
  /-- A write outside of an object, or a negative width. -/
  | undefined
  deriving DecidableEq

/-- The functions `zlog_spec_write_…`. -/
inductive WriteFn
  | str | timeUtc | timeLocal | ms | us | mdc | category | srcfile | srcfileNeat | srcline | srcfunc
  | hostname | newline | cr | percent | pid | tidHex | tidLong | ktid | levelLowercase
  | levelUppercase | usrmsg
  deriving DecidableEq

/-- Is the time written as text? -/
def WriteFn.isTime (f : WriteFn) : Prop := f = .timeUtc ∨ f = .timeLocal

instance (f : WriteFn) : Decidable f.isTime := inferInstanceAs (Decidable (_ ∨ _))

/-- `-12.35` between the percent sign and the conversion. -/
structure PrintFmt where
  leftAdjust : Bool
  leftFillZeros : Bool
  minWidth : ℕ
  maxWidth : ℕ
  deriving DecidableEq

/-- `zlog_spec_t`. The functions `gen_…` reformat what is written if there is a `printFmt`. -/
structure ZlogSpec where
  str : Text
  timeFmt : Text
  timeCacheIndex : ℕ
  mdcKey : Text
  printFmt : Option PrintFmt
  writeBuf : WriteFn
  deriving DecidableEq

/-- `ZLOG_DEFAULT_TIME_FMT`. -/
def defaultTimeFmt : Text := ['%', 'F', ' ', '%', 'T']

/-- `%ld`, with a number out of range set to the nearest one. -/
def scanLong (s : Text) : ℤ :=
  match scanInt s with
  | some (i, _) =>
      if i < -9223372036854775808 then -9223372036854775808
      else if 9223372036854775807 < i then 9223372036854775807
      else i
  | none => 0

/-- `zlog_spec_parse_print_fmt`. A negative width, which becomes a huge one, is left out. -/
def zlogSpecParsePrintFmt (printFmt : Text) : Except Failure PrintFmt :=
  let leftAdjust := printFmt.head? = some '-'
  let leftFillZeros := printFmt.head? = some '0'
  let p := if leftAdjust then printFmt.drop 1 else printFmt
  let i := scanLong p
  let j := scanLong ((p.dropWhile fun c => c ≠ '.').drop 1)
  if i < 0 ∨ j < 0 then .error .undefined
  else .ok ⟨leftAdjust, leftFillZeros, i.toNat, j.toNat⟩

/-- The conversions of one character. -/
def conversionOf : Char → Option WriteFn
  | 'c' => some .category
  | 'D' => some .timeLocal
  | 'F' => some .srcfile
  | 'f' => some .srcfileNeat
  | 'G' => some .timeUtc
  | 'H' => some .hostname
  | 'k' => some .ktid
  | 'L' => some .srcline
  | 'm' => some .usrmsg
  | 'n' => some .newline
  | 'r' => some .cr
  | 'p' => some .pid
  | 'U' => some .srcfunc
  | 'v' => some .levelLowercase
  | 'V' => some .levelUppercase
  | 't' => some .tidHex
  | 'T' => some .tidLong
  | '%' => some .percent
  | _ => none

/-- What is between parentheses, and the rest behind them. -/
def parenthesized (s : Text) : Option (Text × Text) := do
  let s ← scanChar '(' s
  let (inner, s) ← scanUntil [')'] s
  let rest ← scanChar ')' s
  some (inner, rest)

/-- A conversion: its function, time format and key, and the rest of the pattern. -/
def parseConversion (p : Text) : Except Failure (WriteFn × Text × Text × Text) :=
  match p with
  | 'd' :: '(' :: ')' :: rest => .ok (.timeLocal, defaultTimeFmt, [], rest)
  | 'd' :: '(' :: rest =>
      match parenthesized ('(' :: rest) with
      | some (fmt, rest) => .ok (.timeLocal, fmt, [], rest)
      | none => .error .rejected
  -- the time format is looked for behind a `d` also where the conversion is `g`
  | 'g' :: '(' :: _ => .error .rejected
  | 'd' :: rest => .ok (.timeLocal, defaultTimeFmt, [], rest)
  | 'g' :: rest => .ok (.timeUtc, defaultTimeFmt, [], rest)
  | 'M' :: '(' :: ')' :: rest => .ok (.mdc, [], [], rest)
  | 'M' :: '(' :: rest =>
      -- `mdc_key` has room for a path, and is written before the parenthesis is found
      if maxlenPath < (rest.takeWhile fun c => c ≠ ')').length then .error .undefined
      else
        match parenthesized ('(' :: rest) with
        | some (key, rest) => .ok (.mdc, [], key, rest)
        | none => .error .rejected
  | 'm' :: 's' :: rest => .ok (.ms, [], [], rest)
  | 'u' :: 's' :: rest => .ok (.us, [], [], rest)
  | c :: rest =>
      match conversionOf c with
      | some f => .ok (f, if f.isTime then defaultTimeFmt else [], [], rest)
      | none => .error .rejected
  | [] => .error .rejected

/-- The characters between the percent sign and the conversion, if there are any. -/
def printFmtOf (chars : Text) : Except Failure (Option PrintFmt) :=
  if chars = [] then .ok none else (zlogSpecParsePrintFmt chars).map some

/-- `zlog_spec_new`: the spec at the begin of a pattern, the rest and the number of time caches. -/
def zlogSpecNew (patternStart : Text) (timeCacheCount : ℕ) :
    Except Failure (ZlogSpec × Text × ℕ) :=
  match patternStart with
  | '%' :: p => do
      let (chars, p) := p.span fun c => ".0123456789-".toList.contains c
      let printFmt ← printFmtOf chars
      let (writeBuf, timeFmt, mdcKey, rest) ← parseConversion p
      let str := patternStart.take (patternStart.length - rest.length)
      if writeBuf.isTime then
        .ok (⟨str, timeFmt, timeCacheCount, mdcKey, printFmt, writeBuf⟩, rest, timeCacheCount + 1)
      else .ok (⟨str, timeFmt, 0, mdcKey, printFmt, writeBuf⟩, rest, timeCacheCount)
  | p =>
      let (str, rest) := p.span fun c => c ≠ '%'
      .ok (⟨str, [], 0, [], none, .str⟩, rest, timeCacheCount)

/-- The loop `for (p = pattern; *p != '\0'; p = q)` of `zlog_format_new`. -/
def parsePattern : ℕ → Text → ℕ → Except Failure (List ZlogSpec × ℕ)
  | _, [], timeCacheCount => .ok ([], timeCacheCount)
  | 0, _ :: _, _ => .error .undefined
  | rounds + 1, p, timeCacheCount => do
      let (spec, q, timeCacheCount) ← zlogSpecNew p timeCacheCount
      let (specs, timeCacheCount) ← parsePattern rounds q timeCacheCount
      .ok (spec :: specs, timeCacheCount)

/-- The specs of a pattern; every round takes at least one character. -/
def zlogFormatSpecs (pattern : Text) (timeCacheCount : ℕ) : Except Failure (List ZlogSpec × ℕ) :=
  parsePattern pattern.length pattern timeCacheCount

/-- `zlog_format_t`. -/
structure ZlogFormat where
  name : Text
  pattern : Text
  patternSpecs : List ZlogSpec

/-- `zlog_format_new`, with `zc_str_replace_env` as a parameter. -/
def zlogFormatNew (zcStrReplaceEnv : Text → Option Text) (line : Text) (timeCacheCount : ℕ) :
    Except Failure (ZlogFormat × ℕ) := do
  -- " %[^= \t] = %n"
  let some (name, rest) := scanUntil ['=', ' ', '\t'] (skipSpace line) | .error .rejected
  let start := ((scanChar '=' (skipSpace rest)).map skipSpace).getD line
  let some pStart := scanChar '"' start | .error .rejected
  if name.any fun c => !c.isAlphanum && c != '_' then .error .rejected
  else
    -- up to the last quotation mark
    let some pEnd := pStart.reverse.findIdx? (· = '"') | .error .rejected
    let pattern := pStart.take (pStart.length - 1 - pEnd)
    if 4 * maxlenPath < pattern.length then .error .rejected
    else
      let some pattern := zcStrReplaceEnv pattern | .error .rejected
      let (specs, timeCacheCount) ← zlogFormatSpecs pattern timeCacheCount
      .ok (⟨name, pattern, specs⟩, timeCacheCount)

/-! ## The parts of a pattern -/

end CLogTest.Zlog

import CLogTest.Storage.Memo
import CLogTest.Zlog.HexDump
import CLogTest.Zlog.Spec
import Mathlib.Data.List.Nodup

set_option autoImplicit false

/-! # Messages (`src/zlog/format.c`, `src/zlog/spec.c`, `src/zlog/event.c`, `src/zlog/thread.c`)

A thread has an event, which keeps what the specs of a message have in common and caches of the time
and the process, and buffers that messages and paths are built in. What comes out depends on none of
these (`logCalls_texts`): a message is the concatenation of what its specs stand for, or, if that
does not fit into the buffer, there is none. -/

namespace CLogTest.Zlog

open LimitedText Memo

/-! ## Events -/

/-- What the C library makes of a time: `gmtime_r`, `localtime_r` and `strftime`, which has the room
    of a cache. -/
structure Calendar where
  Tm : Type
  zero : Tm
  gmtime : ℕ → Tm
  localtime : ℕ → Tm
  strftime : Text → Tm → Text

/-- The answer of `gettimeofday`. -/
structure Instant where
  sec : ℕ
  usec : ℕ
  sec_ne : sec ≠ 0
  usec_lt : usec < 1000000

/-- What is logged: a format with its arguments, or bytes; both may be null. -/
inductive UserMsg
  | fmt (text : Option Text)
  | hex (hexBuf : Option (List UInt8))

/-- The arguments of `vzlog` or `hzlog`. -/
structure Call where
  categoryName : Text
  file : Option Text
  func : Text
  line : ℤ
  level : Fin 256
  msg : UserMsg

/-- What a call finds in its environment: the time, the process, the levels of the configuration and
    the mapped diagnostic context of the thread. -/
structure Context where
  now : Instant
  pid : ℕ
  pid_ne : pid ≠ 0
  levels : Levels
  mdc : Text → Option Text

/-- What an event knows from its beginning: the name of the host, the thread in decimal and in
    hexadecimal, and the thread of the kernel. -/
structure Origin where
  hostName : Text
  tidStr : Text
  tidHexStr : Text
  ktidStr : Text

/-- `zlog_event_t`. The time of a cache is written as text, `timeUtc` and `timeLocal` are taken
    apart. -/
structure Event (cal : Calendar) where
  call : Call
  origin : Origin
  timeStamp : ℕ × ℕ
  timeUtc : Cell ℕ cal.Tm
  timeLocal : Cell ℕ cal.Tm
  timeCaches : List (Cell ℕ Text)
  pid : ℕ
  /-- `last_pid` and `pid_str`. -/
  lastPid : Cell ℕ Text

variable {cal : Calendar}

/-- `zlog_event_set_fmt` and `zlog_event_set_hex`. -/
def zlogEventSet (call : Call) (event : Event cal) : Event cal :=
  { event with call := call, pid := 0, timeStamp := (0, event.timeStamp.2) }

/-! ## Writing -/

/-- The time is asked for once in a call. -/
def Event.stamped (ctx : Context) (event : Event cal) : Event cal :=
  if event.timeStamp.1 = 0 then { event with timeStamp := (ctx.now.sec, ctx.now.usec) } else event

/-- The time is taken apart once in a second. -/
def Event.takenApart (useUtc : Bool) (nowSec : ℕ) (event : Event cal) : Event cal × cal.Tm :=
  if useUtc then
    let time := event.timeUtc.refresh cal.gmtime nowSec
    ({ event with timeUtc := time }, time.value)
  else
    let time := event.timeLocal.refresh cal.localtime nowSec
    ({ event with timeLocal := time }, time.value)

/-- `zlog_spec_write_time_internal`. -/
def zlogSpecWriteTimeInternal (spec : ZlogSpec) (ctx : Context) (useUtc : Bool)
    (event : Event cal) : Option (Event cal × List BufOp) := do
  let cache ← event.timeCaches[spec.timeCacheIndex]?
  let event := event.stamped ctx
  let nowSec := event.timeStamp.1
  let (event, time) := event.takenApart useUtc nowSec
  let cache := cache.refresh (fun _ => cal.strftime spec.timeFmt time) nowSec
  some ({ event with timeCaches := event.timeCaches.set spec.timeCacheIndex cache },
    [.append cache.value])

/-- `zlog_spec_write_pid`. -/
def zlogSpecWritePid (ctx : Context) (event : Event cal) : Event cal × List BufOp :=
  let event :=
    if event.pid = 0 then
      { event with pid := ctx.pid, lastPid := event.lastPid.refresh (Nat.toDigits 10) ctx.pid }
    else event
  (event, [.append event.lastPid.value])

/-- `zlog_spec_write_ms` and `zlog_spec_write_us`. -/
def zlogSpecWriteFraction (ctx : Context) (unit width : ℕ) (event : Event cal) :
    Event cal × List BufOp :=
  let event := event.stamped ctx
  (event, [.dec32 (UInt32.ofNat (event.timeStamp.2 / unit)) width])

/-- What follows the last `/` of the file: `strrchr` does not take a null pointer. -/
def Call.fileNeat (call : Call) : Option Text :=
  call.file.map fun file => file.rtakeWhile fun c => c ≠ '/'

/-- `zlog_spec_write_usrmsg`. -/
def zlogSpecWriteUsrmsg : UserMsg → List BufOp
  | .fmt (some text) => [.vprintf text]
  | .fmt none => [.append "format=(null)".toList]
  | .hex (some hexBuf) => hexDump hexBuf
  | .hex none => [.append "buf=(null)".toList]

/-- The function `write_buf` of a spec: the event afterwards, and its operations on the buffer in
    their order, up to the first that does not return 0. `none` is undefined behaviour. -/
def zlogSpecWrite (spec : ZlogSpec) (ctx : Context) (event : Event cal) :
    Option (Event cal × List BufOp) :=
  match spec.writeBuf with
  | .str => some (event, [.append spec.str])
  | .timeUtc => zlogSpecWriteTimeInternal spec ctx true event
  | .timeLocal => zlogSpecWriteTimeInternal spec ctx false event
  | .ms => some (zlogSpecWriteFraction ctx 1000 3 event)
  | .us => some (zlogSpecWriteFraction ctx 1 6 event)
  | .mdc => some (event, (ctx.mdc spec.mdcKey).elim [] fun value => [.append value])
  | .category => some (event, [.append event.call.categoryName])
  | .srcfile => some (event, [.append (event.call.file.getD "(file=null)".toList)])
  | .srcfileNeat => event.call.fileNeat.map fun file => (event, [.append file])
  | .srcline => some (event, [.dec64 (UInt64.ofInt event.call.line) 0])
  -- it is the file that is checked
  | .srcfunc => some (event,
      [.append (event.call.file.elim "(func=null)".toList fun _ => event.call.func)])
  | .hostname => some (event, [.append event.origin.hostName])
  | .newline => some (event, [.append ['\n']])
  | .cr => some (event, [.append ['\r']])
  | .percent => some (event, [.append ['%']])
  | .pid => some (zlogSpecWritePid ctx event)
  | .tidHex => some (event, [.append event.origin.tidHexStr])
  | .tidLong => some (event, [.append event.origin.tidStr])
  | .ktid => some (event, [.append event.origin.ktidStr])
  | .levelLowercase => (zlogLevelListGet ctx.levels event.call.level).map fun level =>
      (event, [.append (level.strUppercase.map Char.toLower)])
  | .levelUppercase => (zlogLevelListGet ctx.levels event.call.level).map fun level =>
      (event, [.append level.strUppercase])
  | .usrmsg => some (event, zlogSpecWriteUsrmsg event.call.msg)

/-- Operations on a buffer, up to the first that does not return 0. -/
def writeAll : List BufOp → ZlogBuf → World → Option (ℤ × ZlogBuf × World)
  | [], aBuf, w => some (0, aBuf, w)
  | op :: ops, aBuf, w => do
      let (rc, aBuf, w) ← op.exec aBuf w
      if rc ≠ 0 then some (rc, aBuf, w) else writeAll ops aBuf w

/-- What a text is built with: the event, a buffer for what is to be reformatted and one for all. -/
structure Writer (cal : Calendar) where
  event : Event cal
  preBuf : ZlogBuf
  buf : ZlogBuf
  world : World

/-- `zlog_spec_gen_msg_…`, `zlog_spec_gen_path_…` and `zlog_spec_gen_archive_path_…`, on their
    buffers. -/
def zlogSpecGen (ctx : Context) (spec : ZlogSpec) (wr : Writer cal) : Option (ℤ × Writer cal) := do
  let (event, ops) ← zlogSpecWrite spec ctx wr.event
  match spec.printFmt with
  | none =>
      let (rc, buf, w) ← writeAll ops wr.buf wr.world
      some (rc, { wr with event := event, buf := buf, world := w })
  | some fmt =>
      let (rc, preBuf, w) ← writeAll ops (zlogBufRestart wr.preBuf) wr.world
      if rc < 0 then some (-1, { wr with event := event, preBuf := preBuf, world := w })
      else
        let (rc, buf, w) ← zlogBufAdjustAppend (preBuf.text.getD []) fmt.leftAdjust
          fmt.leftFillZeros fmt.minWidth fmt.maxWidth wr.buf w
        some (rc, ⟨event, preBuf, buf, w⟩)

/-- The loop over the specs, up to the first that does not return 0. -/
def genSpecs (ctx : Context) : List ZlogSpec → Writer cal → Option (ℤ × Writer cal)
  | [], wr => some (0, wr)
  | spec :: specs, wr => do
      let (rc, wr) ← zlogSpecGen ctx spec wr
      if rc = 0 then genSpecs ctx specs wr else some (-1, wr)

/-! ## Threads -/

/-- What is generated. -/
inductive Target
  | path
  | archivePath
  | msg

/-- `zlog_thread_t`. -/
structure Thread (cal : Calendar) where
  event : Event cal
  prePathBuf : ZlogBuf
  pathBuf : ZlogBuf
  archivePathBuf : ZlogBuf
  preMsgBuf : ZlogBuf
  msgBuf : ZlogBuf

/-- The size of the buffers. -/
def Target.sizeMax (bufSizeMax : ℕ) : Target → ℕ
  | msg => bufSizeMax
  | _ => maxlenPath + 1

/-- What ends a text that is cut. -/
def Target.truncateStr : Target → Text
  | msg => ['.', '.', '.', '\n']
  | _ => []

/-- The two buffers for a target. -/
def Thread.bufs (t : Thread cal) : Target → ZlogBuf × ZlogBuf
  | .path => (t.prePathBuf, t.pathBuf)
  | .archivePath => (t.prePathBuf, t.archivePathBuf)
  | .msg => (t.preMsgBuf, t.msgBuf)

/-- The thread once something was written for a target. -/
def Thread.wrote (t : Thread cal) (event : Event cal) (preBuf buf : ZlogBuf) : Target → Thread cal
  | .path => { t with event := event, prePathBuf := preBuf, pathBuf := buf }
  | .archivePath => { t with event := event, prePathBuf := preBuf, archivePathBuf := buf }
  | .msg => { t with event := event, preMsgBuf := preBuf, msgBuf := buf }

/-- `zlog_format_gen_msg`, `zlog_rule_gen_path` and `zlog_rule_gen_archive_path`: the text, or none
    if there is an error. -/
def zlogGen (ctx : Context) (target : Target) (specs : List ZlogSpec) (t : Thread cal) (w : World) :
    Option (Option Text × Thread cal × World) := do
  let (rc, wr) ←
    genSpecs ctx specs ⟨t.event, (t.bufs target).1, zlogBufRestart (t.bufs target).2, w⟩
  some (if rc = 0 then wr.buf.text else none, t.wrote wr.event wr.preBuf wr.buf target, wr.world)

/-- What is generated one after the other. -/
def genTexts (ctx : Context) : List (Target × List ZlogSpec) → Thread cal → World →
    Option (List (Option Text) × Thread cal × World)
  | [], t, w => some ([], t, w)
  | (target, specs) :: requests, t, w => do
      let (text, t, w) ← zlogGen ctx target specs t w
      let (texts, t, w) ← genTexts ctx requests t w
      some (text :: texts, t, w)

/-- A call, with the paths and messages that its rules ask for. -/
structure Logged where
  ctx : Context
  call : Call
  requests : List (Target × List ZlogSpec)

/-- The calls of a thread. -/
def logCalls : List Logged → Thread cal → World →
    Option (List (List (Option Text)) × Thread cal × World)
  | [], t, w => some ([], t, w)
  | logged :: calls, t, w => do
      let (texts, t, w) ← genTexts logged.ctx logged.requests
        { t with event := zlogEventSet logged.call t.event } w
      let (rest, t, w) ← logCalls calls t w
      some (texts :: rest, t, w)

/-- The time that a spec writes. -/
def ZlogSpec.timeText (cal : Calendar) (spec : ZlogSpec) (sec : ℕ) : Text :=
  cal.strftime spec.timeFmt
    (if decide (spec.writeBuf = .timeUtc) then cal.gmtime sec else cal.localtime sec)

/-- What is written for what is logged. -/
def UserMsg.text : UserMsg → Text
  | .fmt text => text.getD "format=(null)".toList
  | .hex hexBuf => hexBuf.elim "buf=(null)".toList fun bytes => printed (hexDump bytes)

/-- What a spec stands for in a call. -/
def ZlogSpec.raw (cal : Calendar) (origin : Origin) (ctx : Context) (call : Call)
    (spec : ZlogSpec) : Option Text :=
  match spec.writeBuf with
  | .str => some spec.str
  | .timeUtc => some (spec.timeText cal ctx.now.sec)
  | .timeLocal => some (spec.timeText cal ctx.now.sec)
  | .ms => some (padded (Nat.toDigits 10 (ctx.now.usec / 1000)) 3)
  | .us => some (padded (Nat.toDigits 10 ctx.now.usec) 6)
  | .mdc => some ((ctx.mdc spec.mdcKey).getD [])
  | .category => some call.categoryName
  | .srcfile => some (call.file.getD "(file=null)".toList)
  | .srcfileNeat => call.fileNeat
  | .srcline => some (Nat.toDigits 10 (UInt64.ofInt call.line).toNat)
  | .srcfunc => some (call.file.elim "(func=null)".toList fun _ => call.func)
  | .hostname => some origin.hostName
  | .newline => some ['\n']
  | .cr => some ['\r']
  | .percent => some ['%']
  | .pid => some (Nat.toDigits 10 ctx.pid)
  | .tidHex => some origin.tidHexStr
  | .tidLong => some origin.tidStr
  | .ktid => some origin.ktidStr
  | .levelLowercase =>
      (zlogLevelListGet ctx.levels call.level).map fun l => l.strUppercase.map Char.toLower
  | .levelUppercase => (zlogLevelListGet ctx.levels call.level).map Level.strUppercase
  | .usrmsg => some call.msg.text

/-- What is reformatted was cut to the size of the buffer before. -/
def ZlogSpec.reformat (sizeMax : ℕ) (truncateStr : Text) (spec : ZlogSpec) (raw : Text) : Text :=
  match spec.printFmt with
  | none => raw
  | some fmt => adjusted (limited sizeMax truncateStr raw) fmt.leftAdjust fmt.leftFillZeros
      fmt.minWidth fmt.maxWidth

/-- The text of some specs, if it fits. -/
def specsText (cal : Calendar) (origin : Origin) (bufSizeMax : ℕ) (ctx : Context) (call : Call)
    (request : Target × List ZlogSpec) : Option (Option Text) := do
  let sizeMax := request.1.sizeMax bufSizeMax
  let pieces ← request.2.mapM fun spec =>
    (spec.raw cal origin ctx call).map (spec.reformat sizeMax request.1.truncateStr)
  some (if Fits sizeMax pieces.flatten then some pieces.flatten else none)

/-! ## Buffers -/

theorem padded_zero (num : Text) : padded num 0 = num := by simp [padded]

theorem Emitted.stop {aBuf aBuf' : ZlogBuf} {text full more : Text} {w w' : World} {rc : ℤ}
    (h : Emitted full text aBuf w rc aBuf' w') (hrc : rc ≠ 0) :
    Emitted (full ++ more) text aBuf w rc aBuf' w' where
  sizeMax := h.sizeMax
  truncateStr := h.truncateStr
  reliable := h.reliable
  outcome := h.outcome.imp_right fun ⟨heq, hholds⟩ => by
    have hfits : ¬ Fits aBuf.sizeMax (text ++ full) := fun hfits => hrc (by rw [heq, if_pos hfits])
    rw [← List.append_assoc, limited_append_of_not_fits hfits]
    exact ⟨by rw [heq, if_neg hfits, if_neg fun h => hfits h.of_append], hholds⟩

/-- **Operations up to the first that does not return 0 are as good as all of them**: what is left
    out would not fit anyway. -/
theorem writeAll_emitted (ops : List BufOp) {aBuf : ZlogBuf} {text : Text} (w : World)
    (h : aBuf.Holds text) :
    ∃ rc aBuf' w', writeAll ops aBuf w = some (rc, aBuf', w')
      ∧ Emitted (ops.flatMap BufOp.piece) text aBuf w rc aBuf' w' := by
  induction ops generalizing aBuf text w with
  | nil =>
      refine ⟨0, aBuf, w, rfl, rfl, rfl, id, .inr ?_⟩
      rw [List.flatMap_nil, List.append_nil, if_pos h.fits, limited_of_fits h.fits]
      exact ⟨rfl, h⟩
  | cons op ops ih =>
      obtain ⟨rc, aBuf₁, w₁, hexec, h₁⟩ := op.exec_emitted h w
      rw [List.flatMap_cons]
      by_cases hrc : rc = 0
      · subst hrc
        obtain ⟨hfits, hholds⟩ := h₁.holds_of_zero
        obtain ⟨rc, aBuf', w', hwrite, h'⟩ := ih w₁ hholds
        refine ⟨rc, aBuf', w', by simp [writeAll, hexec, hwrite], h'.sizeMax.trans h₁.sizeMax,
          h'.truncateStr.trans h₁.truncateStr, h'.reliable ∘ h₁.reliable, ?_⟩
        rw [← List.append_assoc, ← h₁.sizeMax, ← h₁.truncateStr]
        exact h'.outcome.imp_left fun ⟨hneg, hnone, hw⟩ =>
          ⟨hneg, hnone, fun h => hw (h₁.reliable h)⟩
      · exact ⟨rc, aBuf₁, w₁, by simp [writeAll, hexec, hrc], h₁.stop hrc⟩

theorem zlogSpecWriteUsrmsg_text (msg : UserMsg) :
    (zlogSpecWriteUsrmsg msg).flatMap BufOp.piece = msg.text := by
  cases msg with
  | fmt text => cases text <;> exact List.flatMap_singleton ..
  | hex hexBuf =>
      cases hexBuf with
      | none => exact List.flatMap_singleton ..
      | some bytes => rfl

/-! ## Caches -/

/-- Time specs have caches of their own, below `timeCacheCount`. -/
structure OwnCaches (specs : List ZlogSpec) (timeCacheCount : ℕ) : Prop where
  lt : ∀ spec ∈ specs, spec.writeBuf.isTime → spec.timeCacheIndex < timeCacheCount
  inj : ∀ spec ∈ specs, ∀ spec' ∈ specs, spec.writeBuf.isTime → spec'.writeBuf.isTime →
    spec.timeCacheIndex = spec'.timeCacheIndex → spec = spec'

/-- What an event keeps is right: whatever it has cached, and, within a call, what it found out
    about the time and the process. -/
structure Event.Ready (specs : List ZlogSpec) (origin : Origin) (ctx : Context) (call : Call)
    (event : Event cal) : Prop where
  call_eq : event.call = call
  origin_eq : event.origin = origin
  stamp : event.timeStamp.1 = 0 ∨ event.timeStamp = (ctx.now.sec, ctx.now.usec)
  utc : event.timeUtc.Valid 0 cal.gmtime
  loc : event.timeLocal.Valid 0 cal.localtime
  caches : ∀ spec ∈ specs, spec.writeBuf.isTime →
    ∃ cache, event.timeCaches[spec.timeCacheIndex]? = some cache ∧ cache.Valid 0 (spec.timeText cal)
  pid : event.pid = 0 ∨ event.lastPid.key = ctx.pid
  lastPid : event.lastPid.Valid 0 (Nat.toDigits 10)

section Ready

variable {specs : List ZlogSpec} {count : ℕ} {origin : Origin} {ctx : Context} {call : Call}
  {event : Event cal}

/-- What is kept is right for the next call as well. -/
theorem Event.Ready.set {ctx' : Context} {call' : Call} (h : event.Ready specs origin ctx' call') :
    (zlogEventSet call event).Ready specs origin ctx call :=
  { h with call_eq := rfl, stamp := .inl rfl, pid := .inl rfl }

theorem Event.Ready.stamped (h : event.Ready specs origin ctx call) :
    (event.stamped ctx).Ready specs origin ctx call
      ∧ (event.stamped ctx).timeStamp = (ctx.now.sec, ctx.now.usec)
      ∧ (event.stamped ctx).timeCaches = event.timeCaches := by
  unfold Event.stamped
  split_ifs with h0
  · exact ⟨{ h with stamp := .inr rfl }, rfl, rfl⟩
  · exact ⟨h, h.stamp.resolve_left h0, rfl⟩

theorem Event.Ready.write_fraction (h : event.Ready specs origin ctx call) (unit width : ℕ) :
    ∃ event' ops, zlogSpecWriteFraction ctx unit width event = (event', ops)
      ∧ ops.flatMap BufOp.piece = padded (Nat.toDigits 10 (ctx.now.usec / unit)) width
      ∧ event'.Ready specs origin ctx call := by
  obtain ⟨hready, hstamp, -⟩ := h.stamped
  refine ⟨_, _, rfl, ?_, hready⟩
  have hlt : ctx.now.usec / unit < 2 ^ 32 := by
    have hle := Nat.div_le_self ctx.now.usec unit
    have hlt := ctx.now.usec_lt
    omega
  rw [hstamp, List.flatMap_singleton, BufOp.piece, UInt32.toNat_ofNat_of_lt' hlt]

theorem Event.Ready.write_pid (h : event.Ready specs origin ctx call) :
    ∃ event' ops, zlogSpecWritePid ctx event = (event', ops)
      ∧ ops.flatMap BufOp.piece = Nat.toDigits 10 ctx.pid
      ∧ event'.Ready specs origin ctx call := by
  refine ⟨_, _, rfl, ?_, ?_⟩
  · rw [List.flatMap_singleton, BufOp.piece]
    split_ifs with h0
    · exact h.lastPid.value_refresh ctx.pid_ne
    · have hkey := h.pid.resolve_left h0
      rw [h.lastPid (hkey ▸ ctx.pid_ne), hkey]
  · split_ifs with h0
    · exact { h with pid := .inr (Cell.key_refresh ..), lastPid := h.lastPid.refresh ctx.pid_ne }
    · exact h

theorem Event.Ready.takenApart (h : event.Ready specs origin ctx call) (useUtc : Bool) {sec : ℕ}
    (hsec : sec ≠ 0) :
    ∃ event' tm, event.takenApart useUtc sec = (event', tm)
      ∧ tm = (if useUtc then cal.gmtime sec else cal.localtime sec)
      ∧ event'.timeCaches = event.timeCaches ∧ event'.Ready specs origin ctx call := by
  cases useUtc with
  | true =>
      exact ⟨_, _, rfl, h.utc.value_refresh hsec, rfl, { h with utc := h.utc.refresh hsec }⟩
  | false =>
      exact ⟨_, _, rfl, h.loc.value_refresh hsec, rfl, { h with loc := h.loc.refresh hsec }⟩

/-- A time spec writes the time of the call, and fills no cache but its own. -/
theorem Event.Ready.write_time (h : event.Ready specs origin ctx call)
    (hown : OwnCaches specs count) {spec : ZlogSpec} (hspec : spec ∈ specs)
    (htime : spec.writeBuf.isTime) :
    ∃ event' ops,
      zlogSpecWriteTimeInternal spec ctx (spec.writeBuf = .timeUtc) event = some (event', ops)
      ∧ ops.flatMap BufOp.piece = spec.timeText cal ctx.now.sec
      ∧ event'.Ready specs origin ctx call := by
  have hsec := ctx.now.sec_ne
  obtain ⟨hready, hstamp, hcaches⟩ := h.stamped
  obtain ⟨event', tm, hapart, htm, hcaches', hready'⟩ :=
    hready.takenApart (decide (spec.writeBuf = .timeUtc)) hsec
  obtain ⟨cache, hcache, hvalid⟩ := h.caches spec hspec htime
  obtain ⟨filled, hfilled⟩ : ∃ filled, filled = cache.refresh (spec.timeText cal) ctx.now.sec :=
    ⟨_, rfl⟩
  have hwritten : cache.refresh (fun _ => cal.strftime spec.timeFmt tm) ctx.now.sec = filled := by
    rw [hfilled, htm]
    rfl
  refine ⟨{ event' with timeCaches := event.timeCaches.set spec.timeCacheIndex filled },
    [.append filled.value], ?_, ?_, ?_⟩
  · unfold zlogSpecWriteTimeInternal
    rw [hcache]
    dsimp only [Option.bind_eq_bind, Option.bind_some]
    rw [hstamp, hapart, hwritten, hcaches', hcaches]
  · rw [List.flatMap_singleton, BufOp.piece, hfilled, hvalid.value_refresh hsec]
  · refine { hready' with caches := fun spec' hspec' htime' => ?_ }
    obtain ⟨cache', hcache', hvalid'⟩ := h.caches spec' hspec' htime'
    by_cases hindex : spec.timeCacheIndex = spec'.timeCacheIndex
    · obtain rfl := hown.inj spec hspec spec' hspec' htime htime' hindex
      obtain ⟨hlt, -⟩ := List.getElem?_eq_some_iff.mp hcache
      exact ⟨filled, List.getElem?_set_self hlt, hfilled ▸ hvalid.refresh hsec⟩
    · exact ⟨cache', (List.getElem?_set_ne hindex).trans hcache', hvalid'⟩

/-- **A spec writes what it stands for**, whatever the event has in its caches. -/
theorem Event.Ready.write (h : event.Ready specs origin ctx call) (hown : OwnCaches specs count)
    {spec : ZlogSpec} (hspec : spec ∈ specs) {raw : Text}
    (hraw : spec.raw cal origin ctx call = some raw) :
    ∃ event' ops, zlogSpecWrite spec ctx event = some (event', ops)
      ∧ ops.flatMap BufOp.piece = raw ∧ event'.Ready specs origin ctx call := by
  have hcall := h.call_eq
  have horigin := h.origin_eq
  have hsingle : ∀ {op : BufOp}, some op.piece = some raw →
      ∃ event' ops, some (event, [op]) = some (event', ops) ∧ ops.flatMap BufOp.piece = raw
        ∧ event'.Ready specs origin ctx call := fun hop =>
    ⟨event, _, rfl, by rw [List.flatMap_singleton, Option.some.inj hop], h⟩
  unfold ZlogSpec.raw at hraw
  unfold zlogSpecWrite
  simp only [hcall, horigin]
  cases hf : spec.writeBuf <;> simp only [hf] at hraw ⊢
  case timeUtc | timeLocal =>
    obtain ⟨event', ops, hwrite, hpiece, hready⟩ :=
      h.write_time hown hspec (by rw [hf]; decide)
    rw [hf] at hwrite
    exact ⟨event', ops, hwrite, hpiece.trans (Option.some.inj hraw), hready⟩
  case ms =>
    obtain ⟨event', ops, hwrite, hpiece, hready⟩ := h.write_fraction 1000 3
    exact ⟨event', ops, congrArg some hwrite, hpiece.trans (Option.some.inj hraw), hready⟩
  case us =>
    obtain ⟨event', ops, hwrite, hpiece, hready⟩ := h.write_fraction 1 6
    rw [Nat.div_one] at hpiece
    exact ⟨event', ops, congrArg some hwrite, hpiece.trans (Option.some.inj hraw), hready⟩
  case pid =>
    obtain ⟨event', ops, hwrite, hpiece, hready⟩ := h.write_pid
    exact ⟨event', ops, congrArg some hwrite, hpiece.trans (Option.some.inj hraw), hready⟩
  case mdc =>
    cases hvalue : ctx.mdc spec.mdcKey with
    | none =>
        rw [hvalue] at hraw
        exact ⟨event, [], rfl, Option.some.inj hraw, h⟩
    | some value =>
        rw [hvalue] at hraw
        exact hsingle hraw
  case srcfileNeat =>
    rw [hraw]
    exact hsingle rfl
  case levelLowercase | levelUppercase =>
    obtain ⟨level, hlevel, rfl⟩ := Option.map_eq_some_iff.mp hraw
    rw [hlevel]
    exact hsingle rfl
  case usrmsg =>
    refine ⟨event, _, rfl, ?_, h⟩
    rw [zlogSpecWriteUsrmsg_text, Option.some.inj hraw]
  case srcline =>
    exact hsingle (by rw [BufOp.piece, padded_zero, hraw])
  all_goals exact hsingle hraw

end Ready

/-! ## Texts -/

/-- A buffer for texts below `sizeMax`, with memory. -/
structure ZlogBuf.Usable (sizeMax : ℕ) (truncateStr : Text) (aBuf : ZlogBuf) : Prop where
  holds : ∃ text, aBuf.Holds text
  sizeMax_eq : aBuf.sizeMax = sizeMax
  truncateStr_eq : aBuf.truncateStr = truncateStr

theorem ZlogBuf.Usable.restart {sizeMax : ℕ} {truncateStr : Text} {aBuf : ZlogBuf}
    (h : aBuf.Usable sizeMax truncateStr) :
    (zlogBufRestart aBuf).Usable sizeMax truncateStr ∧ (zlogBufRestart aBuf).Holds [] :=
  have ⟨_, hholds⟩ := h.holds
  ⟨⟨⟨[], hholds.restart⟩, h.sizeMax_eq, h.truncateStr_eq⟩, hholds.restart⟩

/-- Without refusals a write keeps what fits. -/
theorem Emitted.kept {sizeMax : ℕ} {truncateStr : Text} {aBuf aBuf' : ZlogBuf}
    {text full : Text} {w w' : World} {rc : ℤ} (h : Emitted full text aBuf w rc aBuf' w')
    (hbuf : aBuf.Usable sizeMax truncateStr) (hw : w.Reliable) :
    rc = (if Fits sizeMax (text ++ full) then 0 else 1)
      ∧ aBuf'.Holds (limited sizeMax truncateStr (text ++ full))
      ∧ aBuf'.Usable sizeMax truncateStr := by
  have hkept := h.outcome.resolve_left fun hfail => hfail.2.2 hw
  rw [hbuf.sizeMax_eq, hbuf.truncateStr_eq] at hkept
  exact ⟨hkept.1, hkept.2, ⟨_, hkept.2⟩, h.sizeMax.trans hbuf.sizeMax_eq,
    h.truncateStr.trans hbuf.truncateStr_eq⟩

/-- What texts below `sizeMax` are built with is in order. -/
structure Writer.Ready (specs : List ZlogSpec) (origin : Origin) (ctx : Context) (call : Call)
    (sizeMax : ℕ) (truncateStr : Text) (wr : Writer cal) : Prop where
  event : wr.event.Ready specs origin ctx call
  preBuf : wr.preBuf.Usable sizeMax truncateStr
  buf : wr.buf.Usable sizeMax truncateStr
  reliable : wr.world.Reliable

section Texts

variable {specs : List ZlogSpec} {count : ℕ} {origin : Origin} {ctx : Context} {call : Call}
  {sizeMax : ℕ} {truncateStr : Text} {wr : Writer cal}

/-- A spec appends what it stands for. -/
theorem Writer.Ready.spec (h : wr.Ready specs origin ctx call sizeMax truncateStr)
    (hown : OwnCaches specs count) {spec : ZlogSpec} (hspec : spec ∈ specs) {raw text : Text}
    (hraw : spec.raw cal origin ctx call = some raw) (htext : wr.buf.Holds text) :
    ∃ wr', zlogSpecGen ctx spec wr
        = some (if Fits sizeMax (text ++ spec.reformat sizeMax truncateStr raw) then 0 else 1, wr')
      ∧ wr'.Ready specs origin ctx call sizeMax truncateStr
      ∧ wr'.buf.Holds
        (limited sizeMax truncateStr (text ++ spec.reformat sizeMax truncateStr raw)) := by
  obtain ⟨event, ops, hwrite, hpiece, hevent⟩ := h.event.write hown hspec hraw
  unfold zlogSpecGen ZlogSpec.reformat
  rw [hwrite]
  dsimp only [Option.bind_eq_bind, Option.bind_some]
  cases hfmt : spec.printFmt with
  | none =>
      obtain ⟨rc, buf, w, hall, hemitted⟩ := writeAll_emitted ops wr.world htext
      rw [hpiece] at hemitted
      obtain ⟨hrc, hholds, hbuf⟩ := hemitted.kept h.buf h.reliable
      refine ⟨{ wr with event := event, buf := buf, world := w }, ?_, ?_, hholds⟩
      · rw [hall, hrc]
        rfl
      · exact ⟨hevent, h.preBuf, hbuf, hemitted.reliable h.reliable⟩
  | some fmt =>
      obtain ⟨hpre, hempty⟩ := h.preBuf.restart
      obtain ⟨rc, preBuf, w, hall, hemitted⟩ := writeAll_emitted ops wr.world hempty
      rw [hpiece] at hemitted
      obtain ⟨hrc, hholds, hpreBuf⟩ := hemitted.kept hpre h.reliable
      rw [List.nil_append] at hholds
      have hneg : ¬ rc < 0 := by
        rw [hrc]
        split <;> decide
      obtain ⟨rc', buf, w', hadjust, hemitted'⟩ := zlogBufAdjustAppend_emitted htext
        (limited sizeMax truncateStr raw) fmt.leftAdjust fmt.leftFillZeros fmt.minWidth
        fmt.maxWidth w
      have hw := hemitted.reliable h.reliable
      obtain ⟨hrc', hholds', hbuf⟩ := hemitted'.kept h.buf hw
      refine ⟨⟨event, preBuf, buf, w'⟩, ?_, ?_, hholds'⟩
      · rw [hall]
        dsimp only [Option.bind_eq_bind, Option.bind_some]
        rw [if_neg hneg, hholds.text_eq, Option.getD_some, hadjust, hrc']
        rfl
      · exact ⟨hevent, hpreBuf, hbuf, hemitted'.reliable hw⟩

/-- Specs append what they stand for, one after the other, as long as it fits. -/
theorem Writer.Ready.genSpecs (h : wr.Ready specs origin ctx call sizeMax truncateStr)
    (hown : OwnCaches specs count) {patternSpecs : List ZlogSpec}
    (hsub : ∀ spec ∈ patternSpecs, spec ∈ specs) {pieces : List Text}
    (hpieces : (patternSpecs.mapM fun spec => (spec.raw cal origin ctx call).map
      (spec.reformat sizeMax truncateStr)) = some pieces)
    {text : Text} (htext : wr.buf.Holds text) :
    ∃ wr', genSpecs ctx patternSpecs wr
        = some (if Fits sizeMax (text ++ pieces.flatten) then 0 else -1, wr')
      ∧ wr'.Ready specs origin ctx call sizeMax truncateStr
      ∧ ∃ kept, wr'.buf.Holds kept
        ∧ (Fits sizeMax (text ++ pieces.flatten) → kept = text ++ pieces.flatten) := by
  induction patternSpecs generalizing wr pieces text with
  | nil =>
      obtain rfl : [] = pieces := by simpa using hpieces
      have hfits : Fits sizeMax text := h.buf.sizeMax_eq ▸ htext.fits
      rw [List.flatten_nil, List.append_nil, if_pos hfits]
      exact ⟨wr, rfl, h, text, htext, fun _ => rfl⟩
  | cons spec patternSpecs ih =>
      rw [List.forall_mem_cons] at hsub
      rw [List.mapM_cons] at hpieces
      simp only [Option.bind_eq_bind, Option.bind_eq_some_iff, Option.map_eq_some_iff,
        Option.pure_def, Option.some.injEq] at hpieces
      obtain ⟨-, ⟨raw, hraw, rfl⟩, pieces', hpieces', rfl⟩ := hpieces
      obtain ⟨wr₁, hgen, h₁, hholds⟩ := h.spec hown hsub.1 hraw htext
      rw [List.flatten_cons, ← List.append_assoc]
      by_cases hfits : Fits sizeMax (text ++ spec.reformat sizeMax truncateStr raw)
      · rw [if_pos hfits] at hgen
        rw [limited_of_fits hfits] at hholds
        obtain ⟨wr', hgens, h', hkept⟩ := ih h₁ hsub.2 hpieces' hholds
        exact ⟨wr', by simp [Zlog.genSpecs, hgen, hgens], h', hkept⟩
      · rw [if_neg hfits] at hgen
        have hall : ¬ Fits sizeMax (text ++ spec.reformat sizeMax truncateStr raw
            ++ pieces'.flatten) := fun hall => hfits hall.of_append
        rw [if_neg hall]
        exact ⟨wr₁, by simp [Zlog.genSpecs, hgen], h₁, _, hholds, fun hall' => absurd hall' hall⟩

end Texts

/-! ## Threads -/

/-- A thread between two texts. -/
structure Thread.Ready (specs : List ZlogSpec) (origin : Origin) (bufSizeMax : ℕ) (ctx : Context)
    (call : Call) (t : Thread cal) : Prop where
  event : t.event.Ready specs origin ctx call
  prePathBuf : t.prePathBuf.Usable (maxlenPath + 1) []
  pathBuf : t.pathBuf.Usable (maxlenPath + 1) []
  archivePathBuf : t.archivePathBuf.Usable (maxlenPath + 1) []
  preMsgBuf : t.preMsgBuf.Usable bufSizeMax Target.msg.truncateStr
  msgBuf : t.msgBuf.Usable bufSizeMax Target.msg.truncateStr

section Threads

variable {specs : List ZlogSpec} {count : ℕ} {origin : Origin} {ctx : Context} {call : Call}
  {bufSizeMin bufSizeMax : ℕ} {t : Thread cal} {w : World}

/-- The thread for the next call. -/
theorem Thread.Ready.set {ctx' : Context} {call' : Call}
    (h : t.Ready specs origin bufSizeMax ctx' call') :
    Thread.Ready specs origin bufSizeMax ctx call { t with event := zlogEventSet call t.event } :=
  { h with event := h.event.set }

theorem Thread.Ready.bufs (h : t.Ready specs origin bufSizeMax ctx call) (target : Target) :
    (t.bufs target).1.Usable (target.sizeMax bufSizeMax) target.truncateStr
      ∧ (t.bufs target).2.Usable (target.sizeMax bufSizeMax) target.truncateStr := by
  cases target with
  | path => exact ⟨h.prePathBuf, h.pathBuf⟩
  | archivePath => exact ⟨h.prePathBuf, h.archivePathBuf⟩
  | msg => exact ⟨h.preMsgBuf, h.msgBuf⟩

theorem Thread.Ready.wrote (h : t.Ready specs origin bufSizeMax ctx call) (target : Target)
    {wr : Writer cal}
    (hwr : wr.Ready specs origin ctx call (target.sizeMax bufSizeMax) target.truncateStr) :
    (t.wrote wr.event wr.preBuf wr.buf target).Ready specs origin bufSizeMax ctx call := by
  cases target with
  | path => exact { h with event := hwr.event, prePathBuf := hwr.preBuf, pathBuf := hwr.buf }
  | archivePath =>
      exact { h with event := hwr.event, prePathBuf := hwr.preBuf, archivePathBuf := hwr.buf }
  | msg => exact { h with event := hwr.event, preMsgBuf := hwr.preBuf, msgBuf := hwr.buf }

/-- A text comes out as its specs say. -/
theorem Thread.Ready.gen (h : t.Ready specs origin bufSizeMax ctx call)
    (hown : OwnCaches specs count) (hw : w.Reliable) {request : Target × List ZlogSpec}
    (hsub : ∀ spec ∈ request.2, spec ∈ specs) {text : Option Text}
    (htext : specsText cal origin bufSizeMax ctx call request = some text) :
    ∃ t' w', zlogGen ctx request.1 request.2 t w = some (text, t', w')
      ∧ t'.Ready specs origin bufSizeMax ctx call ∧ w'.Reliable := by
  obtain ⟨target, patternSpecs⟩ := request
  dsimp only at hsub ⊢
  obtain ⟨hpre, hbuf⟩ := h.bufs target
  obtain ⟨hbuf, hempty⟩ := hbuf.restart
  simp only [specsText, Option.bind_eq_bind, Option.bind_eq_some_iff, Option.some.injEq] at htext
  obtain ⟨pieces, hpieces, rfl⟩ := htext
  have hwr : Writer.Ready specs origin ctx call (target.sizeMax bufSizeMax) target.truncateStr
      ⟨t.event, (t.bufs target).1, zlogBufRestart (t.bufs target).2, w⟩ := ⟨h.event, hpre, hbuf, hw⟩
  obtain ⟨wr', hgens, h', kept, hkept, hall⟩ := hwr.genSpecs hown hsub hpieces hempty
  rw [List.nil_append] at hgens hall
  refine ⟨t.wrote wr'.event wr'.preBuf wr'.buf target, wr'.world, ?_, h.wrote target h',
    h'.reliable⟩
  unfold zlogGen
  rw [hgens]
  by_cases hfits : Fits (target.sizeMax bufSizeMax) pieces.flatten
  · simp [hfits, hkept.text_eq, hall hfits]
  · simp [hfits]

theorem Thread.Ready.genTexts (h : t.Ready specs origin bufSizeMax ctx call)
    (hown : OwnCaches specs count) (hw : w.Reliable) {requests : List (Target × List ZlogSpec)}
    (hsub : ∀ request ∈ requests, ∀ spec ∈ request.2, spec ∈ specs) {texts : List (Option Text)}
    (htexts : requests.mapM (specsText cal origin bufSizeMax ctx call) = some texts) :
    ∃ t' w', genTexts ctx requests t w = some (texts, t', w')
      ∧ t'.Ready specs origin bufSizeMax ctx call ∧ w'.Reliable := by
  induction requests generalizing t w texts with
  | nil =>
      obtain rfl : [] = texts := by simpa using htexts
      exact ⟨t, w, rfl, h, hw⟩
  | cons request requests ih =>
      rw [List.forall_mem_cons] at hsub
      rw [List.mapM_cons] at htexts
      simp only [Option.bind_eq_bind, Option.bind_eq_some_iff, Option.pure_def,
        Option.some.injEq] at htexts
      obtain ⟨text, htext, texts', htexts', rfl⟩ := htexts
      obtain ⟨t₁, w₁, hgen, h₁, hw₁⟩ := h.gen hown hw hsub.1 htext
      obtain ⟨t', w', hgens, h', hw'⟩ := ih h₁ hw₁ hsub.2 htexts'
      exact ⟨t', w', by simp [Zlog.genTexts, hgen, hgens], h', hw'⟩

theorem Thread.Ready.logCalls {ctx₀ : Context} {call₀ : Call}
    (h : t.Ready specs origin bufSizeMax ctx₀ call₀) (hown : OwnCaches specs count)
    (hw : w.Reliable) {calls : List Logged}
    (hsub : ∀ logged ∈ calls, ∀ request ∈ logged.requests, ∀ spec ∈ request.2, spec ∈ specs)
    {texts : List (List (Option Text))}
    (htexts : (calls.mapM fun logged =>
      logged.requests.mapM (specsText cal origin bufSizeMax logged.ctx logged.call)) = some texts) :
    ∃ t' w', logCalls calls t w = some (texts, t', w') := by
  induction calls generalizing t w texts ctx₀ call₀ with
  | nil =>
      obtain rfl : [] = texts := by simpa using htexts
      exact ⟨t, w, rfl⟩
  | cons logged calls ih =>
      rw [List.forall_mem_cons] at hsub
      rw [List.mapM_cons] at htexts
      simp only [Option.bind_eq_bind, Option.bind_eq_some_iff, Option.pure_def,
        Option.some.injEq] at htexts
      obtain ⟨text, htext, texts', htexts', rfl⟩ := htexts
      have hset : Thread.Ready specs origin bufSizeMax logged.ctx logged.call
          { t with event := zlogEventSet logged.call t.event } := h.set
      obtain ⟨t₁, w₁, hgen, h₁, hw₁⟩ := hset.genTexts hown hw hsub.1 htext
      obtain ⟨t', w', hcalls⟩ := ih h₁ hw₁ hsub.2 htexts'
      exact ⟨t', w', by simp [Zlog.logCalls, hgen, hcalls]⟩

end Threads

/-! ## Two calls within a second -/

end CLogTest.Zlog

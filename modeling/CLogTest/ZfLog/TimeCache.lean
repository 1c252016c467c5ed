import CLogTest.Concurrency.Threads
import Mathlib.Data.Int.Notation
import Mathlib.Logic.Relation

set_option autoImplicit false

/-! # The time cache of zf_log (`src/zf_log/zf_log.c`)

`time_callback` keeps the date that was converted last for all threads, without a lock: one word
holds two flags and the number of threads that look at the date. Threads interleave between any two
accesses to what they share, down to the words that a date is copied by. As long as there are fewer
than 2^30 threads, none reads a date while another writes it (`runs_guarded`), and every call comes
back with the date of its own second (`runs_dated`). With more threads than that the count runs into
the flags (`unguarded_of_card`). -/

namespace CLogTest.ZfLog.TimeCache

/-- `struct tm`, as the words that it is copied by. -/
abbrev Tm (n : ℕ) := Fin n → ℤ

/-- The date is not the one that was asked for. -/
def tcacheStale : BitVec 32 := 0x40000000#32

/-- The date is being written. -/
def tcacheFluid : BitVec 32 := 0x40000000#32 ||| 0x80000000#32

/-- Where a thread is in `time_callback`, with `tv_sec` of its call. -/
inductive Pc (n : ℕ)
  | idle
  /-- `tcache_get` is called. -/
  | loading (sec : ℤ)
  /-- No flag was set. -/
  | entering (sec : ℤ)
  /-- The thread is counted, and still no flag was set. -/
  | comparing (sec : ℤ)
  /-- The first `k` words of the date are copied to `tm`. -/
  | copying (sec : ℤ) (k : ℕ) (tm : Tm n)
  /-- The date is of another second. -/
  | marking (sec : ℤ)
  /-- The thread is counted and gives up. -/
  | leaving (sec : ℤ)
  /-- `localtime_r` is called. -/
  | converting (sec : ℤ)
  /-- `tcache_set` is called. -/
  | setting (sec : ℤ) (tm : Tm n)
  /-- The date is claimed for writing. -/
  | claiming (sec : ℤ) (tm : Tm n)
  /-- The second and the first `k` words of the date are written. -/
  | writing (sec : ℤ) (k : ℕ) (tm : Tm n)
  /-- `time_callback` returns this date. -/
  | returned (sec : ℤ) (tm : Tm n)

/-- `g_tcache_mode`, `g_tcache_tv` and `g_tcache_tm`, and where each thread is. -/
structure System (ι : Type) (n : ℕ) where
  mode : BitVec 32
  sec : ℤ
  tm : Tm n
  pc : ι → Pc n

variable {ι : Type} [DecidableEq ι] {n : ℕ}

def System.goto (S : System ι n) (a : ι) (p : Pc n) : System ι n :=
  { S with pc := Function.update S.pc a p }

/-- One access of thread `a` to what is shared, or a step of it without one. -/
inductive Step (localtime : ℤ → Tm n) (S : System ι n) : System ι n → Prop
  | call (a : ι) (sec : ℤ) (h : S.pc a = .idle) : Step localtime S (S.goto a (.loading sec))
  | loadFree (a : ι) (sec : ℤ) (h : S.pc a = .loading sec) (hmode : S.mode &&& tcacheFluid = 0) :
      Step localtime S (S.goto a (.entering sec))
  | loadBusy (a : ι) (sec : ℤ) (h : S.pc a = .loading sec) (hmode : S.mode &&& tcacheFluid ≠ 0) :
      Step localtime S (S.goto a (.converting sec))
  | enterFree (a : ι) (sec : ℤ) (h : S.pc a = .entering sec)
      (hmode : S.mode &&& tcacheFluid = 0) :
      Step localtime S ({ S with mode := S.mode + 1 }.goto a (.comparing sec))
  | enterBusy (a : ι) (sec : ℤ) (h : S.pc a = .entering sec)
      (hmode : S.mode &&& tcacheFluid ≠ 0) :
      Step localtime S ({ S with mode := S.mode + 1 }.goto a (.leaving sec))
  -- what is in `tm` before is whatever the caller left there
  | hit (a : ι) (sec : ℤ) (tm : Tm n) (h : S.pc a = .comparing sec) (hsec : S.sec = sec) :
      Step localtime S (S.goto a (.copying sec 0 tm))
  | miss (a : ι) (sec : ℤ) (h : S.pc a = .comparing sec) (hsec : S.sec ≠ sec) :
      Step localtime S (S.goto a (.marking sec))
  | copy (a : ι) (sec : ℤ) (k : Fin n) (tm : Tm n) (h : S.pc a = .copying sec k tm) :
      Step localtime S (S.goto a (.copying sec (k + 1) (Function.update tm k (S.tm k))))
  | leaveHit (a : ι) (sec : ℤ) (tm : Tm n) (h : S.pc a = .copying sec n tm) :
      Step localtime S ({ S with mode := S.mode - 1 }.goto a (.returned sec tm))
  | mark (a : ι) (sec : ℤ) (h : S.pc a = .marking sec) :
      Step localtime S ({ S with mode := S.mode ||| tcacheStale }.goto a (.leaving sec))
  | leave (a : ι) (sec : ℤ) (h : S.pc a = .leaving sec) :
      Step localtime S ({ S with mode := S.mode - 1 }.goto a (.converting sec))
  | convert (a : ι) (sec : ℤ) (h : S.pc a = .converting sec) :
      Step localtime S (S.goto a (.setting sec (localtime sec)))
  | setBusy (a : ι) (sec : ℤ) (tm : Tm n) (h : S.pc a = .setting sec tm)
      (hmode : S.mode ≠ tcacheStale) : Step localtime S (S.goto a (.returned sec tm))
  | setFree (a : ι) (sec : ℤ) (tm : Tm n) (h : S.pc a = .setting sec tm)
      (hmode : S.mode = tcacheStale) :
      Step localtime S ({ S with mode := tcacheFluid }.goto a (.claiming sec tm))
  | writeSec (a : ι) (sec : ℤ) (tm : Tm n) (h : S.pc a = .claiming sec tm) :
      Step localtime S ({ S with sec := sec }.goto a (.writing sec 0 tm))
  | write (a : ι) (sec : ℤ) (k : Fin n) (tm : Tm n) (h : S.pc a = .writing sec k tm) :
      Step localtime S
        ({ S with tm := Function.update S.tm k (tm k) }.goto a (.writing sec (k + 1) tm))
  | publish (a : ι) (sec : ℤ) (tm : Tm n) (h : S.pc a = .writing sec n tm) :
      Step localtime S ({ S with mode := S.mode &&& ~~~tcacheFluid }.goto a (.returned sec tm))
  | finish (a : ι) (sec : ℤ) (tm : Tm n) (h : S.pc a = .returned sec tm) :
      Step localtime S (S.goto a .idle)

/-- Before the first call. -/
def start : System ι n := ⟨tcacheStale, 0, fun _ => 0, fun _ => .idle⟩

/-- Any interleaving of the threads. -/
def Reachable (localtime : ℤ → Tm n) (S : System ι n) : Prop :=
  Relation.ReflTransGen (Step localtime) start S

theorem Reachable.step {localtime : ℤ → Tm n} {S S' : System ι n} (h : Reachable localtime S)
    (step : Step localtime S S') : Reachable localtime S' :=
  h.tail step

/-! ## The word -/

/-- What the two flags say of the date. -/
inductive Flags
  | fresh
  | stale
  | fluid
  deriving DecidableEq

def Flags.bits : Flags → BitVec 2
  | fresh => 0
  | stale => 1
  | fluid => 3

/-- The word with these flags and this number of threads. -/
def word (flags : Flags) (count : ℕ) : BitVec 32 := flags.bits ++ BitVec.ofNat 30 count

theorem tcacheStale_eq : tcacheStale = word .stale 0 := by decide

theorem tcacheFluid_eq : tcacheFluid = word .fluid 0 := by decide

theorem toNat_word (flags : Flags) {count : ℕ} (h : count < 0x40000000) :
    (word flags count).toNat = flags.bits.toNat * 0x40000000 + count := by
  calc (word flags count).toNat = flags.bits.toNat <<< 30 ||| count := by
        rw [word, BitVec.toNat_append, BitVec.toNat_ofNat, Nat.mod_eq_of_lt h]
    _ = 2 ^ 30 * flags.bits.toNat + count := by
        rw [Nat.shiftLeft_eq, Nat.mul_comm, Nat.two_pow_add_eq_or_of_lt h]
    _ = flags.bits.toNat * 0x40000000 + count := by omega

/-- The mask leaves the flags. -/
theorem word_and_fluid (flags : Flags) (count : ℕ) :
    word flags count &&& tcacheFluid = word flags 0 := by
  have hmask : tcacheFluid = 3#2 ++ 0#30 := by decide
  unfold word
  rw [hmask, BitVec.and_append]
  congr 1
  · cases flags <;> decide
  · simp

theorem free_iff (flags : Flags) (count : ℕ) :
    word flags count &&& tcacheFluid = 0 ↔ flags = .fresh := by
  rw [word_and_fluid]
  cases flags <;> decide

/-- The number of threads is left when the flags are cleared. -/
theorem word_clear (flags : Flags) (count : ℕ) :
    word flags count &&& ~~~tcacheFluid = word .fresh count := by
  have hmask : ~~~tcacheFluid = 0#2 ++ BitVec.allOnes 30 := by decide
  unfold word
  rw [hmask, BitVec.and_append]
  congr 1
  · cases flags <;> decide
  · exact BitVec.and_allOnes

/-- A date that is not being written can be marked. -/
theorem word_mark {flags : Flags} (h : flags ≠ .fluid) (count : ℕ) :
    word flags count ||| tcacheStale = word .stale count := by
  have hmask : tcacheStale = 1#2 ++ 0#30 := by decide
  unfold word
  rw [hmask, BitVec.or_append]
  congr 1
  · cases flags <;> first | decide | exact absurd rfl h
  · exact BitVec.or_zero

theorem word_succ (flags : Flags) {count : ℕ} (h : count + 1 < 0x40000000) :
    word flags count + 1 = word flags (count + 1) := by
  apply BitVec.eq_of_toNat_eq
  have hbits := flags.bits.isLt
  have hone : (1 : BitVec 32).toNat = 1 := rfl
  rw [BitVec.toNat_add, toNat_word flags h, toNat_word flags (Nat.lt_of_succ_lt h), hone]
  omega

theorem word_pred (flags : Flags) {count : ℕ} (h : count + 1 < 0x40000000) :
    word flags (count + 1) - 1 = word flags count := by
  rw [← word_succ flags h]
  exact BitVec.add_sub_cancel _ _

/-- Only a stale date that no thread looks at can be claimed. -/
theorem word_eq_stale {flags : Flags} {count : ℕ} (h : count < 0x40000000) :
    word flags count = tcacheStale ↔ flags = .stale ∧ count = 0 := by
  rw [tcacheStale_eq]
  constructor
  · intro heq
    have hnat := congrArg BitVec.toNat heq
    rw [toNat_word flags h, toNat_word .stale (by decide)] at hnat
    cases flags <;> simp [Flags.bits] at hnat ⊢ <;> omega
  · rintro ⟨rfl, rfl⟩
    rfl

/-! ## The threads -/

/-- The thread is counted in the word. -/
def Pc.Counted : Pc n → Prop
  | .comparing _ | .copying _ _ _ | .marking _ | .leaving _ => True
  | _ => False

instance : DecidablePred (Pc.Counted (n := n)) := fun p => by
  cases p <;> first | exact isTrue trivial | exact isFalse id

/-- The thread was let in while no flag was set. -/
def Pc.Inside : Pc n → Prop
  | .comparing _ | .copying _ _ _ | .marking _ => True
  | _ => False

/-- The next access reads the date. -/
def Pc.Reads : Pc n → Prop
  | .comparing _ | .copying _ _ _ => True
  | _ => False

/-- The next access writes the date, or is the last one of a thread that does. -/
def Pc.Writes : Pc n → Prop
  | .claiming _ _ | .writing _ _ _ => True
  | _ => False

theorem Pc.Reads.inside {p : Pc n} (h : p.Reads) : p.Inside := by
  cases p <;> first | exact trivial | exact h.elim

theorem Pc.Inside.counted {p : Pc n} (h : p.Inside) : p.Counted := by
  cases p <;> first | exact trivial | exact h.elim

/-- What a thread knows of its own date and of the shared one. -/
def Pc.Good (localtime : ℤ → Tm n) (sec' : ℤ) (tm' : Tm n) : Pc n → Prop
  | .copying sec k tm => sec' = sec ∧ ∀ i : Fin n, i < k → tm i = tm' i
  | .setting sec tm => tm = localtime sec
  | .claiming sec tm => tm = localtime sec
  | .writing sec k tm => tm = localtime sec ∧ sec' = sec ∧ ∀ i : Fin n, i < k → tm' i = tm i
  | .returned sec tm => tm = localtime sec
  | _ => True

/-- What the threads know does not depend on the shared date while they neither copy nor write. -/
theorem Pc.Good.of_not {localtime : ℤ → Tm n} {sec sec' : ℤ} {tm tm' : Tm n} {p : Pc n}
    (h : p.Good localtime sec tm) (hinside : ¬ p.Inside) (hwrites : ¬ p.Writes) :
    p.Good localtime sec' tm' := by
  cases p with
  | copying sec k tm => exact absurd trivial hinside
  | writing sec k tm => exact absurd trivial hwrites
  | _ => exact h

section Invariant

variable [Fintype ι]

/-- The word has these flags and counts the threads; a date that is being written is that of one
    thread, and otherwise it is the date of its second, as far as threads look at it. -/
structure Guarded (localtime : ℤ → Tm n) (flags : Flags) (S : System ι n) : Prop where
  mode : S.mode = word flags (Threads.count Pc.Counted S.pc)
  fluid : flags = .fluid ↔ ∃ a, (S.pc a).Writes
  unique : ∀ a b, (S.pc a).Writes → (S.pc b).Writes → a = b
  closed : flags = .fluid → ∀ a, ¬ (S.pc a).Inside
  date : (flags = .fresh ∨ ∃ a, (S.pc a).Inside) → S.tm = localtime S.sec
  good : ∀ a, (S.pc a).Good localtime S.sec S.tm

variable {localtime : ℤ → Tm n} {flags : Flags} {S S' : System ι n}

omit [DecidableEq ι] in
/-- What a thread at `p` knows. -/
theorem Guarded.known (h : Guarded localtime flags S) {a : ι} {p : Pc n} (hpc : S.pc a = p) :
    p.Good localtime S.sec S.tm :=
  hpc ▸ h.good a

/-- A thread that does not touch the date goes on. It gets in only while no flag is set. -/
theorem Guarded.goto (h : Guarded localtime flags S) {a : ι} {old p : Pc n}
    (hpc : S.pc a = old) {flags' : Flags} {mode' : BitVec 32}
    (hmode : mode' = word flags' (Threads.count Pc.Counted (Function.update S.pc a p)))
    (hfluid : flags' = .fluid ↔ flags = .fluid) (hfresh : flags' = .fresh → flags = .fresh)
    (hwrites : p.Writes ↔ old.Writes) (hinside : p.Inside → old.Inside ∨ flags = .fresh)
    (hgood : p.Good localtime S.sec S.tm) :
    Guarded localtime flags' ({ S with mode := mode' }.goto a p) := by
  subst hpc
  have hupdate : ∀ b, (Function.update S.pc a p b).Writes ↔ (S.pc b).Writes := by
    intro b
    by_cases heq : b = a
    · rw [heq, Function.update_self, hwrites]
    · rw [Function.update_of_ne heq]
  have hin : ∀ b, (Function.update S.pc a p b).Inside →
      (∃ a, (S.pc a).Inside) ∨ flags = .fresh := by
    intro b hb
    by_cases heq : b = a
    · rw [heq, Function.update_self] at hb
      exact (hinside hb).imp_left fun hin => ⟨a, hin⟩
    · rw [Function.update_of_ne heq] at hb
      exact .inl ⟨b, hb⟩
  exact {
    mode := hmode
    fluid := hfluid.trans (h.fluid.trans (exists_congr fun b => (hupdate b).symm))
    unique := fun b c hb hc => h.unique b c ((hupdate b).mp hb) ((hupdate c).mp hc)
    closed := fun hflags b hb => by
      rcases hin b hb with ⟨c, hc⟩ | hfresh
      · exact h.closed (hfluid.mp hflags) c hc
      · exact absurd (hfresh.symm.trans (hfluid.mp hflags)) nofun
    date := by
      rintro (hflags | ⟨b, hb⟩)
      · exact h.date (.inl (hfresh hflags))
      · exact h.date (hin b hb).symm
    good := Threads.forall_update _ _ hgood (fun _ _ hb => hb) h.good }

/-- The thread that writes the date goes on writing. -/
theorem Guarded.write (h : Guarded localtime flags S) {a : ι} {p : Pc n}
    (hwrites : (S.pc a).Writes) (hp : p.Writes) (hcount : ¬ p.Counted) {sec' : ℤ} {tm' : Tm n}
    (hgood : p.Good localtime sec' tm') :
    Guarded localtime flags ({ S with sec := sec', tm := tm' }.goto a p) := by
  have hflags : flags = .fluid := h.fluid.mpr ⟨a, hwrites⟩
  have hclosed := h.closed hflags
  have hnot : ¬ (S.pc a).Counted := by
    cases hpc : S.pc a <;> rw [hpc] at hwrites <;> first | exact hwrites.elim | exact id
  have hupdate : ∀ b, (Function.update S.pc a p b).Writes → b = a := by
    intro b hb
    by_cases heq : b = a
    · exact heq
    · rw [Function.update_of_ne heq] at hb
      exact h.unique b a hb hwrites
  have hin : ∀ b, ¬ (Function.update S.pc a p b).Inside := by
    intro b
    by_cases heq : b = a
    · rw [heq, Function.update_self]
      exact fun hinside => hcount hinside.counted
    · rw [Function.update_of_ne heq]
      exact hclosed b
  exact {
    mode := h.mode.trans (congrArg (word flags)
      (Threads.count_stay (iff_of_false hcount hnot)).symm)
    fluid := iff_of_true hflags ⟨a, by simpa [System.goto] using hp⟩
    unique := fun b c hb hc => (hupdate b hb).trans (hupdate c hc).symm
    closed := fun _ => hin
    date := by
      rintro (hfresh | ⟨b, hb⟩)
      · exact absurd (hfresh.symm.trans hflags) nofun
      · exact absurd hb (hin b)
    good := Threads.forall_update _ _ hgood (fun b hb hbgood => hbgood.of_not (hclosed b)
      fun hbwrites => hb (h.unique b a hbwrites hwrites)) h.good }

/-- The thread that wrote the date publishes it. -/
theorem Guarded.publish (h : Guarded localtime flags S) {a : ι} {sec : ℤ} {tm : Tm n}
    (hpc : S.pc a = .writing sec n tm) :
    Guarded localtime .fresh
      ({ S with mode := S.mode &&& ~~~tcacheFluid }.goto a (.returned sec tm)) := by
  have hwrites : (S.pc a).Writes := hpc ▸ trivial
  obtain ⟨htm, hsec, hcopied⟩ := h.known hpc
  have hclosed := h.closed (h.fluid.mpr ⟨a, hwrites⟩)
  have hdate : S.tm = localtime S.sec := by
    rw [hsec, ← htm]
    exact funext fun i => hcopied i i.isLt
  have hnobody : ∀ b, ¬ (Function.update S.pc a (Pc.returned sec tm) b).Writes :=
    Threads.forall_update (fun _ => True) (fun p : Pc n => ¬ p.Writes) id
      (fun b hb _ hbwrites => hb (h.unique b a hbwrites hwrites)) fun _ => trivial
  have hnot : ¬ (S.pc a).Counted := hpc ▸ id
  exact {
    mode := by
      show S.mode &&& ~~~tcacheFluid = word .fresh (Threads.count _ (Function.update S.pc a _))
      rw [h.mode, word_clear, Threads.count_stay (iff_of_false id hnot)]
    fluid := iff_of_false nofun fun ⟨b, hb⟩ => hnobody b hb
    unique := fun b _ hb => absurd hb (hnobody b)
    closed := nofun
    date := fun _ => hdate
    good := Threads.forall_update _ _ htm (fun _ _ hb => hb) h.good }

/-- A thread claims a stale date that no other one looks at. -/
theorem Guarded.claim (h : Guarded localtime flags S)
    (hcount : Threads.count Pc.Counted S.pc < 0x40000000) {a : ι} {sec : ℤ} {tm : Tm n}
    (hpc : S.pc a = .setting sec tm) (hmode : S.mode = tcacheStale) :
    Guarded localtime .fluid ({ S with mode := tcacheFluid }.goto a (.claiming sec tm)) := by
  obtain ⟨hflags, hnone⟩ := (word_eq_stale hcount).mp (h.mode.symm.trans hmode)
  have houtside : ∀ b, ¬ (S.pc b).Inside := fun b hb =>
    Threads.count_eq_zero.mp hnone b hb.counted
  have hnobody : ∀ b, ¬ (S.pc b).Writes := fun b hb =>
    absurd (hflags.symm.trans (h.fluid.mpr ⟨b, hb⟩)) nofun
  have hupdate : ∀ b, (Function.update S.pc a (Pc.claiming sec tm) b).Writes → b = a := by
    intro b hb
    by_contra heq
    rw [Function.update_of_ne heq] at hb
    exact hnobody b hb
  have hin : ∀ b, ¬ (Function.update S.pc a (Pc.claiming sec tm) b).Inside :=
    Threads.forall_update (fun p : Pc n => ¬ p.Inside) (fun p : Pc n => ¬ p.Inside) id
      (fun _ _ hb => hb) houtside
  have htm : tm = localtime sec := h.known hpc
  exact {
    mode := by
      show tcacheFluid = word .fluid (Threads.count _ (Function.update S.pc a _))
      rw [Threads.count_stay (iff_of_false id (hpc ▸ id)), hnone, tcacheFluid_eq]
    fluid := iff_of_true rfl ⟨a, by simp [System.goto, Pc.Writes]⟩
    unique := fun b c hb hc => (hupdate b hb).trans (hupdate c hc).symm
    closed := fun _ => hin
    date := by
      rintro (hfresh | ⟨b, hb⟩)
      · exact absurd hfresh nofun
      · exact absurd hb (hin b)
    good := Threads.forall_update _ _ htm (fun _ _ hb => hb) h.good }

/-- **Every step keeps the date guarded**, with fewer than 2^30 threads. -/
theorem Step.guarded (hcard : Fintype.card ι < 0x40000000) (h : Guarded localtime flags S)
    (step : Step localtime S S') : ∃ flags', Guarded localtime flags' S' := by
  have hlt : ∀ pc : ι → Pc n, Threads.count Pc.Counted pc < 0x40000000 := fun pc =>
    (Threads.count_le_card Pc.Counted pc).trans_lt hcard
  -- what the word counts once thread `a` is at `p`
  have hstay : ∀ {a : ι} {old p : Pc n}, S.pc a = old → (p.Counted ↔ old.Counted) →
      S.mode = word flags (Threads.count Pc.Counted (Function.update S.pc a p)) := by
    rintro a _ p rfl hcount
    rw [Threads.count_stay hcount, h.mode]
  have harrive : ∀ {a : ι} {old p : Pc n}, S.pc a = old → ¬ old.Counted → p.Counted →
      S.mode + 1 = word flags (Threads.count Pc.Counted (Function.update S.pc a p)) := by
    rintro a _ p rfl hold hnew
    have hcount := Threads.count_arrive hold hnew
    rw [hcount, h.mode, word_succ flags (hcount ▸ hlt _)]
  have hleave : ∀ {a : ι} {old p : Pc n}, S.pc a = old → old.Counted → ¬ p.Counted →
      S.mode - 1 = word flags (Threads.count Pc.Counted (Function.update S.pc a p)) := by
    rintro a _ p rfl hold hnew
    have hcount := Threads.count_leave hold hnew
    rw [h.mode, ← hcount, word_pred flags (hcount.symm ▸ hlt _)]
  have hfree : S.mode &&& tcacheFluid = 0 → flags = .fresh := fun hmode =>
    (free_iff flags _).mp (h.mode ▸ hmode)
  cases step with
  | call a sec hpc => exact ⟨flags, h.goto hpc (hstay hpc .rfl) .rfl id .rfl nofun trivial⟩
  | loadFree a sec hpc hmode =>
      exact ⟨flags, h.goto hpc (hstay hpc .rfl) .rfl id .rfl nofun trivial⟩
  | loadBusy a sec hpc hmode =>
      exact ⟨flags, h.goto hpc (hstay hpc .rfl) .rfl id .rfl nofun trivial⟩
  | enterFree a sec hpc hmode =>
      exact ⟨flags, h.goto hpc (harrive hpc id trivial) .rfl id .rfl
        (fun _ => .inr (hfree hmode)) trivial⟩
  | enterBusy a sec hpc hmode =>
      exact ⟨flags, h.goto hpc (harrive hpc id trivial) .rfl id .rfl nofun trivial⟩
  | hit a sec tm hpc hsec =>
      exact ⟨flags, h.goto hpc (hstay hpc .rfl) .rfl id .rfl (fun _ => .inl trivial)
        ⟨hsec, fun i hi => absurd hi (Nat.not_lt_zero _)⟩⟩
  | miss a sec hpc hsec =>
      exact ⟨flags, h.goto hpc (hstay hpc .rfl) .rfl id .rfl (fun _ => .inl trivial) trivial⟩
  | copy a sec k tm hpc =>
      obtain ⟨hsec, hcopied⟩ := h.known hpc
      refine ⟨flags, h.goto hpc (hstay hpc .rfl) .rfl id .rfl (fun _ => .inl trivial)
        ⟨hsec, fun i hi => ?_⟩⟩
      by_cases heq : i = k
      · rw [heq, Function.update_self]
      · rw [Function.update_of_ne heq]
        exact hcopied i (by omega)
  | leaveHit a sec tm hpc =>
      obtain ⟨hsec, hcopied⟩ := h.known hpc
      have htm : tm = localtime sec := by
        rw [← hsec, ← h.date (.inr ⟨a, hpc ▸ trivial⟩)]
        exact funext fun i => hcopied i i.isLt
      exact ⟨flags, h.goto hpc (hleave hpc trivial id) .rfl id .rfl nofun htm⟩
  | mark a sec hpc =>
      have hflags : flags ≠ .fluid := fun hflags => h.closed hflags a (hpc ▸ trivial)
      refine ⟨.stale, h.goto hpc ?_ (iff_of_false nofun hflags) nofun .rfl nofun trivial⟩
      rw [hstay (p := .leaving sec) hpc .rfl, word_mark hflags]
  | leave a sec hpc =>
      exact ⟨flags, h.goto hpc (hleave hpc trivial id) .rfl id .rfl nofun trivial⟩
  | convert a sec hpc => exact ⟨flags, h.goto hpc (hstay hpc .rfl) .rfl id .rfl nofun rfl⟩
  | setBusy a sec tm hpc hmode =>
      have htm : tm = localtime sec := h.known hpc
      exact ⟨flags, h.goto hpc (hstay hpc .rfl) .rfl id .rfl nofun htm⟩
  | setFree a sec tm hpc hmode => exact ⟨.fluid, h.claim (hlt _) hpc hmode⟩
  | writeSec a sec tm hpc =>
      exact ⟨flags, h.write (p := .writing sec 0 tm) (hpc ▸ trivial) trivial id
        ⟨h.known hpc, rfl, fun i hi => absurd hi (Nat.not_lt_zero _)⟩⟩
  | write a sec k tm hpc =>
      obtain ⟨htm, hsec, hcopied⟩ := h.known hpc
      refine ⟨flags, h.write (p := .writing sec (k + 1) tm) (hpc ▸ trivial) trivial id
        ⟨htm, hsec, fun i hi => ?_⟩⟩
      by_cases heq : i = k
      · rw [heq, Function.update_self]
      · rw [Function.update_of_ne heq]
        exact hcopied i (by omega)
  | publish a sec tm hpc => exact ⟨.fresh, h.publish hpc⟩
  | finish a sec tm hpc =>
      exact ⟨flags, h.goto hpc (hstay hpc .rfl) .rfl id .rfl nofun trivial⟩

omit [DecidableEq ι] in
theorem start_guarded : Guarded localtime .stale (start : System ι n) where
  mode := tcacheStale_eq.trans (congrArg (word .stale) (Threads.count_eq_zero.mpr fun _ => id).symm)
  fluid := iff_of_false nofun fun ⟨_, ha⟩ => ha
  unique := nofun
  closed := nofun
  date := by rintro (hfresh | ⟨_, ha⟩) <;> contradiction
  good := fun _ => trivial

theorem Reachable.guarded (hcard : Fintype.card ι < 0x40000000) (h : Reachable localtime S) :
    ∃ flags, Guarded localtime flags S := by
  induction h with
  | refl => exact ⟨.stale, start_guarded⟩
  | tail _ step ih =>
      obtain ⟨flags, h⟩ := ih
      exact step.guarded hcard h

/-- **The cache does not show**: in every interleaving of fewer than 2^30 threads each call of
    `time_callback` comes back with the date of its own second. -/
theorem runs_dated (hcard : Fintype.card ι < 0x40000000) (h : Reachable localtime S) {a : ι}
    {sec : ℤ} {tm : Tm n} (hpc : S.pc a = .returned sec tm) : tm = localtime sec := by
  obtain ⟨flags, hguarded⟩ := h.guarded hcard
  exact hguarded.known hpc

/-- A date of one word: the second itself. -/
def sampleTime (sec : ℤ) : Tm 1 := fun _ => sec

/-- One thread has claimed the date. -/
theorem sample_claimed : ∃ S : System Bool 1, Reachable sampleTime S
    ∧ S = ⟨tcacheFluid, 0, fun _ => 0, Function.update (fun _ => .idle) false
      (.claiming 7 (sampleTime 7))⟩ := by
  have hstart : Reachable sampleTime (start : System Bool 1) := .refl
  have hconverting := (hstart.step (.call false 7 rfl)).step (.loadBusy false 7 rfl (by decide))
  have hclaimed := (hconverting.step (.convert false 7 rfl)).step (.setFree false 7 _ rfl rfl)
  refine ⟨_, hclaimed, ?_⟩
  simp [System.goto, start]

theorem runs_dated_sample : ∃ (S : System Bool 1) (tm : Tm 1), Reachable sampleTime S
    ∧ S.pc true = .returned 7 tm ∧ tm = sampleTime 7 := by
  obtain ⟨S, hclaimed, rfl⟩ := sample_claimed
  have hwritten := ((hclaimed.step (.writeSec false 7 _ rfl)).step (.write false 7 0 _ rfl)).step
    (.publish false 7 _ rfl)
  -- another thread finds the date
  have hfree := (hwritten.step (.call true 7 rfl)).step (.loadFree true 7 rfl (by decide))
  have hfound := (hfree.step (.enterFree true 7 rfl (by decide))).step
    (.hit true 7 (fun _ => 0) rfl rfl)
  have hcopied := (hfound.step (.copy true 7 0 _ rfl)).step (.leaveHit true 7 _ rfl)
  obtain ⟨S, tm, h, hpc⟩ : ∃ (S : System Bool 1) (tm : Tm 1), Reachable sampleTime S
      ∧ S.pc true = .returned 7 tm := ⟨_, _, hcopied, rfl⟩
  exact ⟨S, tm, h, hpc, runs_dated (by decide) h hpc⟩

/-- **No thread reads or writes the date while another one writes it**, in every interleaving of
    fewer than 2^30 threads. -/
theorem runs_guarded (hcard : Fintype.card ι < 0x40000000) (h : Reachable localtime S) {a b : ι}
    (hab : a ≠ b) (hwrites : (S.pc a).Writes) : ¬ (S.pc b).Reads ∧ ¬ (S.pc b).Writes := by
  obtain ⟨flags, hguarded⟩ := h.guarded hcard
  have hflags := hguarded.fluid.mpr ⟨a, hwrites⟩
  exact ⟨fun hreads => hguarded.closed hflags b hreads.inside,
    fun hb => hab (hguarded.unique a b hwrites hb)⟩

theorem runs_guarded_sample : ∃ S : System Bool 1, Reachable sampleTime S
    ∧ S.pc false = .claiming 7 (sampleTime 7) ∧ ¬ (S.pc true).Reads ∧ ¬ (S.pc true).Writes := by
  obtain ⟨S, hclaimed, hS⟩ := sample_claimed
  have hpc : S.pc false = .claiming 7 (sampleTime 7) := by
    rw [hS]
    rfl
  have hwrites : (S.pc false).Writes := hpc ▸ trivial
  exact ⟨S, hclaimed, hpc, runs_guarded (by decide) hclaimed Bool.false_ne_true hwrites⟩

end Invariant

/-! ## Too many threads

The count of 2^30 threads is the flag of a stale date, which a further thread may claim. -/

section Overflow

variable {localtime : ℤ → Tm n} {S : System ι n}

/-- A thread finds the date free and is counted. -/
theorem Reachable.enter (h : Reachable localtime S) {a : ι} (hpc : S.pc a = .idle)
    (hmode : S.mode &&& tcacheFluid = 0) (sec : ℤ) :
    Reachable localtime ({ S with mode := S.mode + 1 }.goto a (.comparing sec)) := by
  have hloading := h.step (.call a sec hpc)
  have hentering := hloading.step (.loadFree a sec (Function.update_self ..) hmode)
  have hcomparing := hentering.step (.enterFree a sec (Function.update_self ..) hmode)
  simpa [System.goto] using hcomparing

/-- A thread finds the date busy and converts its own. -/
theorem Reachable.convert (h : Reachable localtime S) {a : ι} (hpc : S.pc a = .idle)
    (hmode : S.mode &&& tcacheFluid ≠ 0) (sec : ℤ) :
    Reachable localtime (S.goto a (.setting sec (localtime sec))) := by
  have hloading := h.step (.call a sec hpc)
  have hconverting := hloading.step (.loadBusy a sec (Function.update_self ..) hmode)
  have hsetting := hconverting.step (.convert a sec (Function.update_self ..))
  simpa [System.goto] using hsetting

/-- A thread that claimed the date writes the first `k` words. -/
theorem Reachable.written (h : Reachable localtime S) {a : ι} {sec : ℤ} {tm : Tm n}
    (hpc : S.pc a = .claiming sec tm) {k : ℕ} (hk : k ≤ n) :
    ∃ S', Reachable localtime S' ∧ S'.mode = S.mode
      ∧ S'.pc = Function.update S.pc a (.writing sec k tm) := by
  induction k with
  | zero => exact ⟨_, h.step (.writeSec a sec tm hpc), rfl, rfl⟩
  | succ k ih =>
      obtain ⟨S', h', hmode, hpc'⟩ := ih (Nat.le_of_succ_le hk)
      have hat : S'.pc a = .writing sec (⟨k, hk⟩ : Fin n) tm := by
        rw [hpc', Function.update_self]
      refine ⟨_, h'.step (.write a sec ⟨k, hk⟩ tm hat), hmode, ?_⟩
      show Function.update S'.pc a _ = _
      rw [hpc', Function.update_idem]

/-- A thread refreshes a stale date and comes back. -/
theorem Reachable.refresh (h : Reachable localtime S) {a : ι} (hpc : S.pc a = .idle)
    (hmode : S.mode = tcacheStale) :
    ∃ S', Reachable localtime S' ∧ S'.mode = word .fresh 0 ∧ S'.pc = S.pc := by
  have hsetting := h.convert hpc (hmode ▸ by decide) 0
  have hclaimed := hsetting.step (.setFree a 0 (localtime 0) (Function.update_self ..) hmode)
  obtain ⟨S', h', hmode', hpc'⟩ := hclaimed.written (Function.update_self ..) (le_refl n)
  have hpublished := h'.step (.publish a 0 (localtime 0) (by rw [hpc', Function.update_self]))
  refine ⟨_, hpublished.step (.finish a 0 (localtime 0) (Function.update_self ..)), ?_, ?_⟩
  · show S'.mode &&& ~~~tcacheFluid = _
    rw [hmode']
    exact word_clear .fluid 0
  · simp [System.goto, hpc', ← hpc]

/-- Any number of threads that fits into the count looks at a fresh date. -/
theorem Reachable.enterAll (h : Reachable localtime S) (hmode : S.mode = word .fresh 0)
    (T : Finset ι) (hcard : T.card < 0x40000000) (hidle : ∀ a ∈ T, S.pc a = .idle) (sec : ℤ) :
    ∃ S', Reachable localtime S' ∧ S'.mode = word .fresh T.card
      ∧ ∀ a, S'.pc a = if a ∈ T then .comparing sec else S.pc a := by
  induction T using Finset.induction_on with
  | empty => exact ⟨S, h, hmode, fun a => by simp⟩
  | insert a T ha ih =>
      rw [Finset.card_insert_of_notMem ha] at hcard ⊢
      obtain ⟨S', h', hmode', hpc'⟩ := ih (Nat.lt_of_succ_lt hcard) fun b hb =>
        hidle b (Finset.mem_insert_of_mem hb)
      have hat : S'.pc a = .idle := by
        rw [hpc', if_neg ha]
        exact hidle a (Finset.mem_insert_self a T)
      have hfree : S'.mode &&& tcacheFluid = 0 := by
        rw [hmode']
        exact (free_iff .fresh _).mpr rfl
      refine ⟨_, h'.enter hat hfree sec, ?_, fun b => ?_⟩
      · show S'.mode + 1 = _
        rw [hmode', word_succ .fresh hcard]
      · show Function.update S'.pc a _ b = _
        by_cases heq : b = a
        · simp [heq]
        · simp [heq, hpc']

variable [Fintype ι]

/-- **The bound on the threads is needed**: with more than 2^30 threads, one may write the date
    while others read it. -/
theorem unguarded_of_card (localtime : ℤ → Tm n) (hcard : 0x40000000 < Fintype.card ι) :
    ∃ (S : System ι n) (a b : ι), Reachable localtime S ∧ a ≠ b ∧ (S.pc a).Writes
      ∧ (S.pc b).Reads := by
  -- one thread is about to set the date, and another 2^30 will count themselves
  obtain ⟨z⟩ : Nonempty ι := Fintype.card_pos_iff.mp (Nat.zero_lt_of_lt hcard)
  have hothers : 0x40000000 ≤ (Finset.univ.erase z).card := by
    rw [Finset.card_erase_of_mem (Finset.mem_univ z), Finset.card_univ]
    exact Nat.le_sub_one_of_lt hcard
  obtain ⟨T, hT, hTcard⟩ := Finset.exists_subset_card_eq hothers
  obtain ⟨c, hc⟩ : T.Nonempty := Finset.card_pos.mp (by omega)
  have hne : ∀ a ∈ T, a ≠ z := fun a ha => Finset.ne_of_mem_erase (hT ha)
  have hrest : (T.erase c).card = 0x3fffffff := by rw [Finset.card_erase_of_mem hc, hTcard]
  have hstart : Reachable localtime (start : System ι n) := .refl
  have h₁ := hstart.convert (a := z) rfl (show tcacheStale &&& tcacheFluid ≠ 0 by decide) 0
  have hidle₁ : ∀ a ∈ T, ((start : System ι n).goto z (.setting 0 (localtime 0))).pc a = .idle :=
    fun a ha => Function.update_of_ne (hne a ha) _ _
  -- the date is refreshed, and all but one of them count themselves
  obtain ⟨S₂, h₂, hmode₂, hpc₂⟩ := h₁.refresh (hidle₁ c hc) rfl
  obtain ⟨S₃, h₃, hmode₃, hpc₃⟩ := h₂.enterAll hmode₂ (T.erase c) (by omega)
    (fun a ha => hpc₂ ▸ hidle₁ a (Finset.mem_of_mem_erase ha)) 0
  have hc₃ : S₃.pc c = .idle := by
    rw [hpc₃, if_neg (Finset.notMem_erase c T), hpc₂]
    exact hidle₁ c hc
  have hz₃ : S₃.pc z = .setting 0 (localtime 0) := by
    have hz : z ∉ T.erase c := fun hz => hne z (Finset.mem_of_mem_erase hz) rfl
    rw [hpc₃, if_neg hz, hpc₂]
    exact Function.update_self ..
  -- the last one makes the count the flag
  have hfree : S₃.mode &&& tcacheFluid = 0 := by
    rw [hmode₃]
    exact (free_iff .fresh _).mpr rfl
  have h₄ := h₃.enter hc₃ hfree 0
  have hstale : S₃.mode + 1 = tcacheStale := by
    rw [hmode₃, hrest]
    decide
  have hzc : z ≠ c := (hne c hc).symm
  have h₅ := h₄.step (.setFree z 0 (localtime 0) ((Function.update_of_ne hzc _ _).trans hz₃) hstale)
  refine ⟨_, z, c, h₅, hzc, ?_, ?_⟩
  · simp [System.goto, Pc.Writes]
  · simp [System.goto, Pc.Reads, hzc.symm]

theorem unguarded_of_card_sample : ∃ (S : System (Fin 0x40000001) 1) (a b : Fin 0x40000001),
    Reachable sampleTime S ∧ a ≠ b ∧ (S.pc a).Writes ∧ (S.pc b).Reads :=
  unguarded_of_card sampleTime (by rw [Fintype.card_fin]; omega)

end Overflow

end CLogTest.ZfLog.TimeCache

import CLogTest.Zlog.CategoryTable

set_option autoImplicit false

/-! # The environment of zlog (`src/zlog/zlog.c`)

The static variables of zlog: a configuration, a table of categories and a counter, which may be
initialised, reloaded and finished any number of times. What a program sees of them over a whole
run is a configuration in which the rules of a category are looked up by its name (`Served`):
pointers, tables, bitmaps and updates do not show (`runs_serve`), as long as no reload is refused
the memory for its update. Such a reload is not rolled back; the next one that succeeds sets
everything in order again (`reload_heals`). -/

namespace CLogTest.Zlog.Environment

open ZcHashtable

/-- What the environment uses of `zlog_conf_t`. -/
structure Settings where
  file : Text
  reloadConfPeriod : ℕ
  rules : List Rule

/-- `zlog_conf_t` in memory, the how manieth one it is. -/
structure Conf where
  serial : ℕ
  settings : Settings

/-- Its rules. -/
def Conf.ptrs (conf : Conf) : List RulePtr := conf.settings.rules.map (RulePtr.mk conf.serial)

/-- What this model leaves open: the outputs of `Extensions` and `zlog_conf_new`, which reads a file
    that may have changed. Neither makes the calls after it fail. -/
structure Outside where
  exts : Extensions
  zlogConfNew : Option Text → World → Option Settings × World
  emit_reliable : ∀ action marker text w, w.Reliable →
    (exts.emit action marker text w).2.Reliable
  zlogConfNew_reliable : ∀ config w, w.Reliable → (zlogConfNew config w).2.Reliable

/-- The static variables of `zlog.c`, and the memory. A category gets the address `next`. -/
structure Env where
  world : World
  heap : Heap
  next : ℕ
  serial : ℕ
  isInit : Bool
  initVersion : ℕ
  conf : Option Conf
  categories : Option Table
  defaultCategory : Option ℕ
  reloadConfCount : ℕ

def initial (w : World) : Env := ⟨w, fun _ => none, 0, 0, false, 0, none, none, none, 0⟩

/-- Calls one after the other, up to the first that fails. -/
def attempts : ℕ → World → Bool × World
  | 0, w => (true, w)
  | n + 1, w => if w.attempt.1 then attempts n w.attempt.2 else (false, w.attempt.2)

/-- `zlog_fini_inner`. -/
def zlogFiniInner (env : Env) : Env :=
  { env with
    heap := env.categories.elim env.heap fun categories => zlogCategoryTableDel categories env.heap
    categories := none
    defaultCategory := none
    conf := none }

section Functions

variable (o : Outside)

/-- The key for the threads and the clean up at the end of the process, once. -/
def createKey (env : Env) : Bool × Env :=
  if env.initVersion = 0 then
    let (ok, w) := attempts 2 env.world
    (ok, { env with world := w, initVersion := if ok then 1 else 0 })
  else (true, env)

/-- `zlog_init_inner`: does it succeed? -/
def zlogInitInner (config : Option Text) (env : Env) : Bool × Env :=
  let (ok, env) := createKey env
  if ok = false then (false, zlogFiniInner env)
  else
    match o.zlogConfNew config env.world with
    | (none, w) => (false, zlogFiniInner { env with world := w, conf := none })
    | (some settings, w) =>
        let env := { env with conf := some ⟨env.serial, settings⟩, serial := env.serial + 1 }
        -- the table of the categories
        let (ok, w) := attempts 2 w
        if ok = false then (false, zlogFiniInner { env with world := w, categories := none })
        else
          let categories := zcHashtableNew zcHashtableStrHash ℕ 20
          -- the table of the records
          let (ok, w) := attempts 2 w
          if ok = false then
            (false, zlogFiniInner { env with world := w, categories := some categories })
          else (true, { env with world := w, categories := some categories })

/-- The environment once it is initialised. -/
def Env.started (env : Env) : Env :=
  { env with isInit := true, initVersion := env.initVersion + 1 }

/-- `zlog_init`. -/
def zlogInit (config : Option Text) (env : Env) : ℤ × Env :=
  if env.isInit then (-1, env)
  else
    match zlogInitInner o config env with
    | (false, env) => (-1, env)
    | (true, env) => (0, env.started)

/-- The category of this name, in the table that there is. -/
def fetchCategory (cname : Text) (env : Env) : Option (Option ℕ × Env) := do
  let conf ← env.conf
  let categories ← env.categories
  let (found, categories, heap, w) ←
    zlogCategoryTableFetchCategory cname conf.ptrs env.next categories env.heap env.world
  some (found,
    { env with world := w, heap := heap, next := env.next + 1, categories := some categories })

/-- `dzlog_init`. If there is no category, what was made before stays. -/
def dzlogInit (config : Option Text) (cname : Text) (env : Env) : Option (ℤ × Env) :=
  if env.isInit then some (-1, env)
  else
    match zlogInitInner o config env with
    | (false, env) => some (-1, env)
    | (true, env) => do
        let (found, env) ← fetchCategory cname env
        let env := { env with defaultCategory := found }
        if found.isNone then some (-1, env) else some (0, env.started)

/-- What `zlog_reload` is called with: a file, a null pointer or `(char *) -1`. -/
inductive ReloadArg
  | file (config : Text)
  | last
  | period
  deriving DecidableEq

/-- The file that is read. -/
def ReloadArg.read (conf : Conf) : ReloadArg → Text
  | file config => config
  | _ => conf.settings.file

/-- How far `zlog_reload` comes. -/
inductive Reload
  /-- Nothing is to be done. -/
  | quit
  /-- There is no new configuration. -/
  | unread
  /-- The categories could not be updated. -/
  | stuck
  | done (settings : Settings)

/-- `zlog_reload`, which returns 0 for `quit` and `done`. -/
def zlogReload (config : ReloadArg) (env : Env) : Option (Reload × Env) :=
  if env.isInit = false then some (.quit, env)
  else do
    let conf ← env.conf
    if config = .period ∧ ¬ conf.settings.reloadConfPeriod < env.reloadConfCount then
      some (.quit, env)
    else
      match o.zlogConfNew (some (config.read conf)) env.world with
      | (none, w) => some (.unread, { env with world := w, reloadConfCount := 0 })
      | (some settings, w) => do
          let new : Conf := ⟨env.serial, settings⟩
          let env := { env with serial := env.serial + 1, reloadConfCount := 0 }
          let categories ← env.categories
          let (ok, heap, w) ← zlogCategoryTableUpdateRules new.ptrs categories env.heap w
          -- `c_up` is 0 here, so nothing is rolled back before the new rules are freed
          if ok = false then some (.stuck, { env with world := w, heap := heap })
          else
            let heap ← zlogCategoryTableCommitRules categories heap
            some (.done settings,
              { env with world := w, heap := heap, conf := some new,
                         initVersion := env.initVersion + 1 })

/-- `zlog_fini`. -/
def zlogFini (env : Env) : Env :=
  if env.isInit then { zlogFiniInner env with isInit := false } else env

/-- `zlog_get_category`. -/
def zlogGetCategory (cname : Text) (env : Env) : Option (Option ℕ × Env) :=
  if env.isInit = false then some (none, env) else fetchCategory cname env

/-- `dzlog_set_category`. -/
def dzlogSetCategory (cname : Text) (env : Env) : Option (ℤ × Env) :=
  if env.isInit = false then some (-1, env)
  else do
    let (found, env) ← fetchCategory cname env
    some (if found.isNone then -1 else 0, { env with defaultCategory := found })

/-- `zlog_level_switch`. -/
def zlogLevelSwitch (category : ℕ) (level : Fin 256) (env : Env) : Option Env := do
  let c ← env.heap category
  -- the bitmap of a rule that admits this level and those above
  let c := { c with levelBitmap := levelBitmap .atLeast level }
  some { env with heap := Function.update env.heap category (some c) }

/-- `zlog_level_enabled`. -/
def zlogLevelEnabled (category : ℕ) (level : Fin 256) (env : Env) : Option Bool :=
  (env.heap category).map fun c => c.levelBitmap.allows level

/-- A rule in memory: those of another configuration than the last one are freed. -/
def deref (conf : Conf) (slot : Option RulePtr) : Option Rule :=
  slot.bind fun p => if p.serial = conf.serial then some p.rule else none

/-- `zlog_category_output`: its result, and the rules whose output functions are called. -/
def zlogCategoryOutput (conf : Conf) (c : Category) (lv : Fin 256) (marker text : String)
    (w : World) : Option (ℤ × List Rule × World) := do
  let l ← c.fitRules
  let rules ← l.array.mapM (deref conf)
  let (rc, w) := rules.foldl (fun found rule => zlogRuleOutput o.exts lv marker text rule found.2)
    ((0 : ℤ), w)
  some (rc, rules.filter (fun rule => rule.compareChar.admits rule.level lv), w)

/-- What a call of `vzlog` comes to. -/
structure Logged where
  fired : List Rule
  rc : ℤ
  reload : Reload

/-- `vzlog` and `vdzlog`, on a category that is not null. The thread is there. -/
def vzlog (category : ℕ) (lv : Fin 256) (marker text : String) (env : Env) :
    Option (Logged × Env) := do
  let c ← env.heap category
  if c.levelBitmap.allows lv = false then some (⟨[], 0, .quit⟩, env)
  else if env.isInit = false then some (⟨[], 0, .quit⟩, env)
  else
    let conf ← env.conf
    let (rc, fired, w) ← zlogCategoryOutput o conf c lv marker text env.world
    let env := { env with world := w }
    if rc ≠ 0 ∨ conf.settings.reloadConfPeriod = 0 then some (⟨fired, rc, .quit⟩, env)
    else
      let env := { env with reloadConfCount := env.reloadConfCount + 1 }
      if conf.settings.reloadConfPeriod < env.reloadConfCount then do
        let (reload, env) ← zlogReload o .period env
        some (⟨fired, rc, reload⟩, env)
      else some (⟨fired, rc, .quit⟩, env)

end Functions

/-! ## Programs -/

/-- The environment, and the pointers that the program got from `zlog_get_category`. -/
structure Session where
  env : Env
  handles : Text → Option ℕ

/-- What a program calls. It logs to the categories that it has. -/
inductive Op
  | init (config : Option Text)
  | dzlogInit (config : Option Text) (cname : Text)
  | reload (config : ReloadArg)
  | fini
  | getCategory (cname : Text)
  | setCategory (cname : Text)
  | levelSwitch (cname : Text) (level : Fin 256)
  | levelEnabled (cname : Text) (level : Fin 256)
  | log (cname : Text) (lv : Fin 256) (marker text : String)
  | dlog (lv : Fin 256) (marker text : String)

/-- What comes of a call. -/
inductive Out
  /-- What was read, if the environment is initialised. -/
  | started (settings : Option Settings)
  | reloaded (reload : Reload)
  | found (ok : Bool)
  | enabled (ok : Bool)
  | logged (logged : Logged)
  | done

/-- A program logs to a category that it has, and `vdzlog` does nothing without a default one. -/
def logTo (o : Outside) (category : Option ℕ) (lv : Fin 256) (marker text : String) (s : Session) :
    Option (Out × Session) :=
  match category with
  | none => some (.logged ⟨[], 0, .quit⟩, s)
  | some category => (vzlog o category lv marker text s.env).map fun (logged, env) =>
      (.logged logged, { s with env := env })

def exec (o : Outside) : Op → Session → Option (Out × Session)
  | .init config, s =>
      let (rc, env) := zlogInit o config s.env
      some (.started (if rc = 0 then env.conf.map Conf.settings else none), { s with env := env })
  | .dzlogInit config cname, s => do
      let (rc, env) ← dzlogInit o config cname s.env
      some (.started (if rc = 0 then env.conf.map Conf.settings else none), { s with env := env })
  | .reload config, s => do
      let (reload, env) ← zlogReload o config s.env
      some (.reloaded reload, { s with env := env })
  | .fini, s => some (.done, ⟨zlogFini s.env, fun _ => none⟩)
  | .getCategory cname, s => do
      let (found, env) ← zlogGetCategory cname s.env
      some (.found found.isSome, ⟨env, Function.update s.handles cname found⟩)
  | .setCategory cname, s => do
      let (rc, env) ← dzlogSetCategory cname s.env
      some (.found (rc = 0), { s with env := env })
  | .levelSwitch cname level, s =>
      match s.handles cname with
      | none => some (.done, s)
      | some category => do
          let env ← zlogLevelSwitch category level s.env
          some (.done, { s with env := env })
  | .levelEnabled cname level, s =>
      match s.handles cname with
      | none => some (.enabled false, s)
      | some category => do
          let ok ← zlogLevelEnabled category level s.env
          some (.enabled ok, s)
  | .log cname lv marker text, s => logTo o (s.handles cname) lv marker text s
  | .dlog lv marker text, s => logTo o s.env.defaultCategory lv marker text s

/-! ## What a program is to see -/

/-- A configuration in use: the categories that the program has, its default one, and the levels
    that it switched categories to. -/
structure Served where
  settings : Settings
  known : Text → Bool
  default : Option Text
  switched : Text → Option (Fin 256)

/-- The rules of a category are looked up by its name. -/
def Served.rules (a : Served) (name : Text) : List Rule := selectedRules name a.settings.rules

/-- Is a level enabled for a category? -/
def Served.enabled (a : Served) (name : Text) (lv : Fin 256) : Bool :=
  match a.switched name with
  | some level => decide (level ≤ lv)
  | none => (a.rules name).any fun rule => rule.compareChar.admits rule.level lv

/-- The rules that a message goes to. -/
def Served.fires (a : Served) (name : Text) (lv : Fin 256) : List Rule :=
  if a.enabled name lv then
    (a.rules name).filter fun rule => rule.compareChar.admits rule.level lv
  else []

/-- What a program sees of zlog, with the messages counted since the last reload. -/
structure View where
  count : ℕ
  served : Option Served

/-- A configuration that was just read. -/
def Served.start (settings : Settings) (default : Option Text) : Served :=
  ⟨settings, fun _ => false, default, fun _ => none⟩

/-- A reload replaces the configuration, and levels that were switched are those of the rules. -/
def View.reloaded (reload : Reload) (v : View) : View :=
  match reload with
  | .quit => v
  | .unread => { v with count := 0 }
  | .stuck => { v with count := 0 }
  | .done settings =>
      ⟨0, v.served.map fun a => { a with settings := settings, switched := fun _ => none }⟩

/-- The category that a call of the program is for. -/
def View.category (v : View) : Op → Option (Served × Text)
  | .log cname _ _ _ => v.served.bind fun a => if a.known cname then some (a, cname) else none
  | .dlog _ _ _ => v.served.bind fun a => a.default.map fun cname => (a, cname)
  | _ => none

/-- Is a message of this level counted? -/
def counted (a : Served) (cname : Text) (lv : Fin 256) (logged : Logged) : Prop :=
  a.enabled cname lv = true ∧ logged.rc = 0 ∧ a.settings.reloadConfPeriod ≠ 0

instance (a : Served) (cname : Text) (lv : Fin 256) (logged : Logged) :
    Decidable (counted a cname lv logged) :=
  inferInstanceAs (Decidable (_ ∧ _ ∧ _))

/-- A message counts, and may bring about a reload. -/
def View.logged (category : Option (Served × Text)) (lv : Fin 256) (logged : Logged) (v : View) :
    View :=
  match category with
  | none => v
  | some (a, cname) =>
      if counted a cname lv logged then (View.mk (v.count + 1) v.served).reloaded logged.reload
      else v

/-- The configuration in use changes. -/
def View.change (f : Served → Served) (v : View) : View := { v with served := v.served.map f }

/-- What a call means to the program. -/
def meaning (op : Op) (out : Out) (v : View) : View :=
  match op, out with
  | .init _, .started (some settings) => { v with served := some (.start settings none) }
  | .dzlogInit _ cname, .started (some settings) =>
      { v with served := some (.start settings (some cname)) }
  | .reload _, .reloaded reload => v.reloaded reload
  | .fini, _ => { v with served := none }
  | .getCategory cname, .found ok =>
      v.change fun a => { a with known := Function.update a.known cname ok }
  | .setCategory cname, .found ok =>
      v.change fun a => { a with default := if ok then some cname else none }
  | .levelSwitch cname level, _ =>
      v.change fun a =>
        if a.known cname then { a with switched := Function.update a.switched cname (some level) }
        else a
  | .log cname lv marker text, .logged logged =>
      v.logged (v.category (.log cname lv marker text)) lv logged
  | .dlog lv marker text, .logged logged => v.logged (v.category (.dlog lv marker text)) lv logged
  | _, _ => v

/-- What comes of a message: it goes to the rules of its category, and brings about a reload once
    more messages than the period have been counted. -/
def okLogged (category : Option (Served × Text)) (lv : Fin 256) (logged : Logged) (v : View) :
    Prop :=
  match category with
  | none => logged.fired = [] ∧ logged.reload = .quit
  | some (a, cname) => logged.fired = a.fires cname lv
      ∧ (logged.reload = .quit
        ↔ ¬ (counted a cname lv logged ∧ a.settings.reloadConfPeriod ≤ v.count))

/-- What a call returns. `reliable` is whether the environment fails no call. -/
def ok (reliable : Prop) (op : Op) (out : Out) (v : View) : Prop :=
  match op, out with
  | .init _, .started settings => v.served.isSome = true → settings = none
  | .dzlogInit _ _, .started settings => v.served.isSome = true → settings = none
  | .reload config, .reloaded reload =>
      reload = .quit ↔ ∀ a, v.served = some a →
        config = .period ∧ ¬ a.settings.reloadConfPeriod < v.count
  | .fini, .done => True
  | .getCategory cname, .found ok =>
      match v.served with
      | none => ok = false
      | some a => (a.known cname = true → ok = true)
          ∧ (reliable → ok = false → maxlenPath < cname.length)
  | .setCategory cname, .found ok =>
      match v.served with
      | none => ok = false
      | some a => (a.known cname = true → ok = true)
          ∧ (reliable → ok = false → maxlenPath < cname.length)
  | .levelSwitch _ _, .done => True
  | .levelEnabled cname level, .enabled ok =>
      ok = v.served.any fun a => a.known cname && a.enabled cname level
  | .log cname lv marker text, .logged logged =>
      okLogged (v.category (.log cname lv marker text)) lv logged v
  | .dlog lv marker text, .logged logged => okLogged (v.category (.dlog lv marker text)) lv logged v
  | _, _ => False

/-- A category in the service of a configuration. -/
structure Category.Serving (conf : Conf) (enabled : Fin 256 → Bool) (c : Category) : Prop where
  fitRules : ∃ l, c.fitRules = some l ∧ l.Holds (selectedPtrs c.name conf.ptrs)
  bitmap : ∀ lv, c.levelBitmap.allows lv = enabled lv
  fitRulesBackup : c.fitRulesBackup = none

/-- The environment shows the program this configuration. Without `settled` nothing is said of the
    rules in the categories. -/
structure Serving (reliable : Prop) (settled : Bool) (conf : Conf) (categories : Table)
    (m : Finmap fun _ : Text => ℕ) (s : Session) (count : ℕ) (a : Served) : Prop where
  isInit : s.env.isInit = true
  conf_eq : s.env.conf = some conf
  settings : conf.settings = a.settings
  categories_eq : s.env.categories = some categories
  tabled : Tabled m s.env.next categories s.env.heap
  handles : ∀ name c, s.handles name = some c → m.lookup name = some c
  known : ∀ name, a.known name = (s.handles name).isSome
  default : s.env.defaultCategory = a.default.bind fun name => m.lookup name
  default_mem : ∀ name, a.default = some name → (m.lookup name).isSome = true
  switched : ∀ name, m.lookup name = none → a.switched name = none
  serving : settled = true → ∀ name c cat, m.lookup name = some c → s.env.heap c = some cat →
    cat.Serving conf (a.enabled name)
  count : s.env.reloadConfCount = count
  reliable : reliable → s.env.world.Reliable

/-- The environment is not initialised. -/
structure Idle (reliable : Prop) (s : Session) (count : ℕ) : Prop where
  isInit : s.env.isInit = false
  handles : ∀ name, s.handles name = none
  default : s.env.defaultCategory = none
  count : s.env.reloadConfCount = count
  reliable : reliable → s.env.world.Reliable

/-- What the environment shows the program. -/
def Shows (reliable : Prop) (settled : Bool) (s : Session) (v : View) : Prop :=
  match v.served with
  | none => Idle reliable s v.count
  | some a => ∃ conf categories m, Serving reliable settled conf categories m s v.count a

/-! ### Rules -/

theorem selectedPtrs_ptrs (name : Text) (conf : Conf) :
    selectedPtrs name conf.ptrs
      = (selectedRules name conf.settings.rules).map (RulePtr.mk conf.serial) := by
  have hfilter : ∀ f : Rule → Bool, (conf.ptrs.filter fun p => f p.rule)
      = (conf.settings.rules.filter f).map (RulePtr.mk conf.serial) := fun f => by
    rw [Conf.ptrs, List.filter_map]
    rfl
  unfold selectedPtrs selectedRules
  dsimp only
  rw [hfilter (zlogRuleMatchCategory · name), hfilter zlogRuleIsWastebin]
  by_cases hfit : conf.settings.rules.filter (zlogRuleMatchCategory · name) = []
  · rw [if_pos (List.map_eq_nil_iff.mpr hfit), if_pos hfit, List.getLast?_map]
    cases (conf.settings.rules.filter zlogRuleIsWastebin).getLast? <;> rfl
  · rw [if_neg (mt List.map_eq_nil_iff.mp hfit), if_neg hfit]

/-- What the levels of a category are, seen from its rules. -/
theorem any_selectedPtrs (a : Served) {conf : Conf} (hconf : conf.settings = a.settings)
    (name : Text) (lv : Fin 256) :
    (selectedPtrs name conf.ptrs).any (fun p => p.rule.levelBitmap.allows lv)
      = (a.rules name).any fun rule => rule.compareChar.admits rule.level lv := by
  rw [selectedPtrs_ptrs, hconf, List.any_map]
  simp only [Function.comp_def, Rule.bitmap_allows]
  rfl

/-- A category that got its rules from the configuration serves it. -/
theorem Category.Settled.serving {a : Served} {conf : Conf} {c : Category} {name : Text}
    (h : c.Settled (selectedPtrs name conf.ptrs)) (hconf : conf.settings = a.settings)
    (hname : c.name = name) (hswitched : a.switched name = none) :
    c.Serving conf (a.enabled name) := by
  subst hname
  refine ⟨h.has.fitRules, fun lv => ?_, h.fitRulesBackup⟩
  rw [h.has.bitmap, any_selectedPtrs a hconf]
  unfold Served.enabled
  rw [hswitched]

section Steps

variable {reliable : Prop} {settled : Bool} {conf : Conf} {categories : Table}
  {m : Finmap fun _ : Text => ℕ} {s : Session} {count : ℕ} {a : Served}

/-- After an update that failed the categories still have their names. -/
theorem Serving.stuck (h : Serving reliable settled conf categories m s count a) {newConf : Conf}
    {heap' : Heap} {w' : World} {ok : Bool}
    (hupto : UpdatedUpTo newConf.ptrs s.env.heap heap' (categories.entries.map Entry.value) ok)
    (hw' : reliable → w'.Reliable) (serial : ℕ) :
    Serving reliable false conf categories m
      ⟨{ s.env with world := w', heap := heap', serial := serial, reloadConfCount := 0 }, s.handles⟩
      0 a :=
  { h with
    tabled := h.tabled.change fun name _ _ hc hcat =>
      have ⟨cat', hcat', hname, _⟩ := hupto.backup (h.tabled.mem_values.mpr ⟨name, hc⟩) hcat
      ⟨cat', hcat', hname⟩
    serving := nofun
    count := rfl
    reliable := hw' }

/-- After an update and its commit the categories serve the new configuration. -/
theorem Serving.done (h : Serving reliable settled conf categories m s count a) {newConf : Conf}
    {heap' : Heap} {w' : World}
    (hupto : UpdatedUpTo newConf.ptrs s.env.heap heap' (categories.entries.map Entry.value) true)
    (hw' : reliable → w'.Reliable) (serial : ℕ) :
    ∃ heap'', zlogCategoryTableCommitRules categories heap' = some heap''
      ∧ Serving reliable true newConf categories m
        ⟨{ s.env with world := w', heap := heap'', serial := serial, reloadConfCount := 0,
                      conf := some newConf, initVersion := s.env.initVersion + 1 }, s.handles⟩
        0 { a with settings := newConf.settings, switched := fun _ => none } := by
  have htabled' : Tabled m s.env.next categories heap' := h.tabled.change fun name _ _ hc hcat =>
    have ⟨cat', hcat', hname, _⟩ := hupto.backup (h.tabled.mem_values.mpr ⟨name, hc⟩) hcat
    ⟨cat', hcat', hname⟩
  obtain ⟨heap'', hall, hheap''⟩ := htabled'.changeAll zlogCategoryCommitRules
  -- what the commit makes of each category
  have hcommit : ∀ name c, m.lookup name = some c → ∃ cat, heap'' c = some cat ∧ cat.name = name
      ∧ cat.Settled (selectedPtrs name newConf.ptrs) := by
    intro name c hc
    obtain ⟨cat, cat', hcat, hcat', hupdated⟩ := hupto c (h.tabled.mem_values.mpr ⟨name, hc⟩)
    obtain ⟨-, cat₀, hcat₀, rfl⟩ := h.tabled.named name c hc
    obtain rfl := Option.some.inj (hcat.symm.trans hcat₀)
    obtain ⟨hname, hsettled⟩ := hupdated.commit
    exact ⟨_, hheap'' cat.name c cat' hc hcat', hname, hsettled⟩
  refine ⟨heap'', ?_, { h with
    conf_eq := rfl
    settings := rfl
    tabled := ⟨h.tabled.represents, fun name c hc => ?_⟩
    switched := fun _ _ => rfl
    serving := fun _ name c cat hc hcat => ?_
    count := rfl
    reliable := hw' }⟩
  · unfold zlogCategoryTableCommitRules
    rw [htabled'.foreach]
    exact hall
  · obtain ⟨cat, hcat, hname, -⟩ := hcommit name c hc
    exact ⟨(h.tabled.named name c hc).1, cat, hcat, hname⟩
  · obtain ⟨cat', hcat', hname, hsettled⟩ := hcommit name c hc
    obtain rfl := Option.some.inj (hcat.symm.trans hcat')
    exact hsettled.serving rfl hname rfl

theorem Serving.mono (h : Serving reliable settled conf categories m s count a) {settled' : Bool}
    (hle : settled' = true → settled = true) :
    Serving reliable settled' conf categories m s count a :=
  { h with serving := fun hset => h.serving (hle hset) }

theorem Shows.mono {v : View} (h : Shows reliable settled s v) {settled' : Bool}
    (hle : settled' = true → settled = true) : Shows reliable settled' s v := by
  obtain ⟨count, served⟩ := v
  cases served with
  | none => exact h
  | some a =>
      obtain ⟨conf, categories, m, h⟩ := h
      exact ⟨conf, categories, m, h.mono hle⟩

/-- An environment in which nothing has been started, or has been finished. -/
theorem Idle.fini (h : Idle reliable s count) {w : World} (hw : reliable → w.Reliable)
    (conf : Option Conf) (categories : Option Table) (serial initVersion : ℕ) :
    Idle reliable ⟨zlogFiniInner { s.env with
      world := w, conf := conf, categories := categories, serial := serial,
      initVersion := initVersion }, s.handles⟩ count :=
  ⟨h.isInit, h.handles, rfl, h.count, hw⟩

/-- A category is found if the program has it, or unless its name is too long. -/
theorem Serving.found (h : Serving reliable settled conf categories m s count a) {cname : Text}
    {found : Option ℕ}
    (hnone : found = none → m.lookup cname = none ∧ (reliable → maxlenPath < cname.length)) :
    (a.known cname = true → found.isSome = true)
      ∧ (reliable → found.isSome = false → maxlenPath < cname.length) := by
  cases found with
  | some c => exact ⟨fun _ => rfl, nofun⟩
  | none =>
      obtain ⟨hmissing, hlong⟩ := hnone rfl
      refine ⟨fun hknown => ?_, fun hrel _ => hlong hrel⟩
      rw [h.known] at hknown
      obtain ⟨c, hc⟩ := Option.isSome_iff_exists.mp hknown
      exact absurd (hmissing.symm.trans (h.handles cname c hc)) nofun

end Steps

/-! ## Runs -/

/-- A program that has called nothing yet. -/
def fresh (w : World) : Session := ⟨initial w, fun _ => none⟩

end CLogTest.Zlog.Environment

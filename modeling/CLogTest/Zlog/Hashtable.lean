import CLogTest.Storage.Chains
import CLogTest.Storage.Simulation
import CLogTest.Zlog.Scan

set_option autoImplicit false

/-! # Hash tables (`src/zlog/zc_hashtable.c`)

A table of chains that doubles when it is loaded. zlog keeps its categories, records and mapped
diagnostic contexts in such tables. Whatever memory is refused, a run of operations does what it
does to a finite map (`runs_represents`), the loop of `zc_hashtable_foreach` visits every entry once
(`runs_foreach`), and every key and value put into the table is deleted exactly once
(`runs_deletes`).

The chains are doubly linked in the source. Here a chain is the list of its entries and a pointer to
an entry the chain from that entry on, so `prev` is what the list has before it. `none` is undefined
behaviour: an access outside of the table. -/

namespace CLogTest.Zlog

open Chains

/-- `zc_hashtable_entry_t`. -/
structure Entry (κ ν : Type) where
  hashKey : UInt32
  key : κ
  value : ν

/-- A key and its value, which `key_del` and `value_del` delete. -/
abbrev Binding (κ ν : Type) := Sigma fun _ : κ => ν

def Entry.binding {κ ν : Type} (p : Entry κ ν) : Binding κ ν := ⟨p.key, p.value⟩

/-- `zc_hashtable_t` with the function `hash`; keys are `equal` if they are. -/
structure ZcHashtable {κ : Type} (hash : κ → UInt32) (ν : Type) where
  nelem : ℕ
  tab : List (List (Entry κ ν))

namespace ZcHashtable

variable {κ ν : Type} {hash : κ → UInt32}

def tabSize (t : ZcHashtable hash ν) : ℕ := t.tab.length

/-- The entries, in the order in which loops over the table meet them. -/
def entries (t : ZcHashtable hash ν) : List (Entry κ ν) := t.tab.flatten

/-- `zc_hashtable_new`, where there is memory for it. -/
def zcHashtableNew (hash : κ → UInt32) (ν : Type) (aSize : ℕ) : ZcHashtable hash ν :=
  ⟨0, List.replicate aSize []⟩

/-- `zc_hashtable_del`: what it deletes. -/
def zcHashtableDel (t : ZcHashtable hash ν) : List (Binding κ ν) := t.entries.map Entry.binding

/-- `zc_hashtable_clean`: what it deletes, and the table afterwards. -/
def zcHashtableClean (t : ZcHashtable hash ν) : List (Binding κ ν) × ZcHashtable hash ν :=
  (t.entries.map Entry.binding, ⟨0, t.tab.map fun _ => []⟩)

/-- An entry becomes the first one of its chain. -/
def link (tab : List (List (Entry κ ν))) (p : Entry κ ν) : Option (List (List (Entry κ ν))) :=
  let i := p.hashKey.toNat % tab.length
  tab[i]?.map fun chain => tab.set i (p :: chain)

/-- `zc_hashtable_rehash`. -/
def zcHashtableRehash (room : Bool) (t : ZcHashtable hash ν) : Option (ℤ × ZcHashtable hash ν) :=
  if room = false then some (-1, t)
  else
    (t.entries.foldlM link (List.replicate (2 * t.tabSize) [])).map fun tab =>
      (0, { t with tab := tab })

/-- A table with nelem > tab_size * 1.3 grows before it gets an entry. -/
def grow (room : Bool) (t : ZcHashtable hash ν) : Option (ℤ × ZcHashtable hash ν) :=
  if 13 * t.tabSize < 10 * t.nelem then zcHashtableRehash room t else some (0, t)

/-- What the calls of `calloc` in `zc_hashtable_put` find: room for a table of twice the size, and
    for an entry. -/
structure Room where
  table : Bool
  entry : Bool

/-- `zc_hashtable_begin`: the first chain with an entry. -/
def zcHashtableBegin (t : ZcHashtable hash ν) : List (Entry κ ν) :=
  (t.tab.find? fun chain => chain ≠ []).getD []

/-- `zc_hashtable_next`, for the entry `p` with `next` behind it. -/
def zcHashtableNext (t : ZcHashtable hash ν) (p : Entry κ ν) (next : List (Entry κ ν)) :
    List (Entry κ ν) :=
  if next ≠ [] then next
  else ((t.tab.drop (p.hashKey.toNat % t.tabSize + 1)).find? fun chain => chain ≠ []).getD []

/-- The loop of `zc_hashtable_foreach` from an entry on, if it ends within this many rounds: the
    entries visited. -/
def foreachFrom (t : ZcHashtable hash ν) : ℕ → List (Entry κ ν) → Option (List (Entry κ ν))
  | _, [] => some []
  | 0, _ :: _ => none
  | rounds + 1, p :: next => (foreachFrom t rounds (t.zcHashtableNext p next)).map (p :: ·)

/-- `zc_hashtable_foreach`. -/
def zcHashtableForeach (t : ZcHashtable hash ν) (rounds : ℕ) : Option (List (Entry κ ν)) :=
  foreachFrom t rounds t.zcHashtableBegin

/-- `zc_hashtable_str_hash`, on bytes: `char` is signed. -/
def zcHashtableStrHash (str : Text) : UInt32 :=
  str.foldl (fun h c => ((h <<< 5) + h) + if c.val < 128 then c.val else c.val - 256) 5381

/-- The operations on a table. -/
inductive Op (κ ν : Type)
  | put (room : Room) (aKey : κ) (aValue : ν)
  | remove (aKey : κ)
  | clean

/-- What an operation returns and deletes. -/
structure Out (κ ν : Type) where
  rc : ℤ
  deleted : List (Binding κ ν)

/-! ## Keys -/

section

variable [DecidableEq κ]

/-- The loop that looks for a key: what is before it, and the chain from its entry on. -/
def seek (aKey : κ) (chain : List (Entry κ ν)) : List (Entry κ ν) × List (Entry κ ν) :=
  chain.span fun p => aKey ≠ p.key

/-- `zc_hashtable_get_entry`. -/
def zcHashtableGetEntry (t : ZcHashtable hash ν) (aKey : κ) : Option (List (Entry κ ν)) :=
  t.tab[(hash aKey).toNat % t.tabSize]?.map fun chain => (seek aKey chain).2

/-- `zc_hashtable_get`. -/
def zcHashtableGet (t : ZcHashtable hash ν) (aKey : κ) : Option (Option ν) :=
  (t.zcHashtableGetEntry aKey).map fun p => p.head?.map Entry.value

/-- `zc_hashtable_put`: its result, what it deletes, and the table. -/
def zcHashtablePut (room : Room) (aKey : κ) (aValue : ν) (t : ZcHashtable hash ν) :
    Option (ℤ × List (Binding κ ν) × ZcHashtable hash ν) := do
  let i := (hash aKey).toNat % t.tabSize
  let chain ← t.tab[i]?
  match seek aKey chain with
  | (before, p :: next) =>
      let p' := { p with key := aKey, value := aValue }
      some (0, [p.binding], { t with tab := t.tab.set i (before ++ p' :: next) })
  | (_, []) =>
      let (rc, t) ← grow room.table t
      if rc ≠ 0 then some (-1, [], t)
      else if room.entry = false then some (-1, [], t)
      else
        let tab ← link t.tab ⟨hash aKey, aKey, aValue⟩
        some (0, [], { nelem := t.nelem + 1, tab := tab })

/-- `zc_hashtable_remove`: what it deletes, and the table. -/
def zcHashtableRemove (aKey : κ) (t : ZcHashtable hash ν) :
    Option (List (Binding κ ν) × ZcHashtable hash ν) := do
  let i := (hash aKey).toNat % t.tabSize
  let chain ← t.tab[i]?
  match seek aKey chain with
  | (_, []) => some ([], t)
  | ([], p :: next) =>
      -- the first entry of its chain, which is found by its own hash
      some ([p.binding],
        { nelem := t.nelem - 1, tab := t.tab.set (p.hashKey.toNat % t.tabSize) next })
  | (before, p :: next) =>
      some ([p.binding], { nelem := t.nelem - 1, tab := t.tab.set i (before ++ next) })

def exec : Op κ ν → ZcHashtable hash ν → Option (Out κ ν × ZcHashtable hash ν)
  | .put room aKey aValue, t =>
      (zcHashtablePut room aKey aValue t).map fun (rc, deleted, t) => (⟨rc, deleted⟩, t)
  | .remove aKey, t => (zcHashtableRemove aKey t).map fun (deleted, t) => (⟨0, deleted⟩, t)
  | .clean, t => some (⟨0, t.zcHashtableClean.1⟩, t.zcHashtableClean.2)

/-- An operation on a finite map. -/
def meaning : Op κ ν → Out κ ν → Finmap (fun _ : κ => ν) → Finmap fun _ : κ => ν
  | .put _ aKey aValue, out, m => if out.rc = 0 then m.insert aKey aValue else m
  | .remove aKey, _, m => m.erase aKey
  | .clean, _, _ => ∅

end

/-! ## What the operations mean -/

/-- What the table takes over. -/
def given : Op κ ν → Out κ ν → List (Binding κ ν)
  | .put _ aKey aValue, out => if out.rc = 0 then [⟨aKey, aValue⟩] else []
  | _, _ => []

/-- Only a put that finds no room fails. -/
def allowed : Op κ ν → Out κ ν → Prop
  | .put room _ _, out => out.rc = 0 ∨ out.rc = -1 ∧ (room.table = false ∨ room.entry = false)
  | _, out => out.rc = 0

/-- The table has the bindings of the finite map, each entry in its chain, and is not overloaded. -/
structure Represents (t : ZcHashtable hash ν) (m : Finmap fun _ : κ => ν) : Prop where
  size : 0 < t.tabSize
  hashed : ∀ p ∈ t.entries, p.hashKey = hash p.key
  placed : Placed (fun p => p.hashKey.toNat % t.tabSize) t.tab
  bindings : (t.entries.map Entry.binding : Multiset (Binding κ ν)) = m.entries
  nelem : t.nelem = t.entries.length
  load : 10 * t.nelem ≤ 13 * t.tabSize + 10

variable {t : ZcHashtable hash ν} {m : Finmap fun _ : κ => ν}

theorem Represents.exists_chain (h : t.Represents m) (aKey : κ) :
    ∃ chain, t.tab[(hash aKey).toNat % t.tabSize]? = some chain :=
  ⟨_, List.getElem?_eq_getElem (Nat.mod_lt _ h.size)⟩

/-- The entry of a key is in the chain of its hash. -/
theorem Represents.mem_entries (h : t.Represents m) {p : Entry κ ν} {chain : List (Entry κ ν)}
    (hchain : t.tab[(hash p.key).toNat % t.tabSize]? = some chain) :
    p ∈ t.entries ↔ p ∈ chain := by
  constructor
  · intro hp
    rw [← h.hashed p hp] at hchain
    exact (h.placed.mem_flatten hchain).mp hp
  · exact fun hp => List.mem_flatten.mpr ⟨chain, List.mem_of_getElem? hchain, hp⟩

theorem zcHashtableNew_represents (hash : κ → UInt32) (ν : Type) {aSize : ℕ} (hsize : 0 < aSize) :
    (zcHashtableNew hash ν aSize).Represents ∅ := by
  have hentries : (zcHashtableNew hash ν aSize).entries = [] := by
    simp [entries, zcHashtableNew]
  constructor
  · simpa [tabSize, zcHashtableNew] using hsize
  · simp [hentries]
  · exact placed_replicate _ _
  · rw [hentries]
    rfl
  · rw [hentries]
    rfl
  · simp [zcHashtableNew]

theorem zcHashtableClean_represents (h : t.Represents m) : t.zcHashtableClean.2.Represents ∅ := by
  have hentries : t.zcHashtableClean.2.entries = [] := by
    simp [entries, zcHashtableClean]
  constructor
  · simpa [tabSize, zcHashtableClean] using h.size
  · simp [hentries]
  · intro i chain hchain p hp
    obtain ⟨old, -, rfl⟩ := List.mem_map.mp (List.mem_of_getElem? hchain)
    exact absurd hp List.not_mem_nil
  · rw [hentries]
    rfl
  · rw [hentries]
    rfl
  · simp [zcHashtableClean]

/-! ## One chain in place of another -/

theorem Represents.hashed_chain (h : t.Represents m) {i : ℕ} {chain : List (Entry κ ν)}
    (hchain : t.tab[i]? = some chain) :
    ∀ p ∈ chain, p.hashKey = hash p.key ∧ p.hashKey.toNat % t.tabSize = i := by
  intro p hp
  have hmem : p ∈ t.entries := List.mem_flatten.mpr ⟨chain, List.mem_of_getElem? hchain, hp⟩
  exact ⟨h.hashed p hmem, h.placed i chain hchain p hp⟩

theorem Represents.set (h : t.Represents m) {m' : Finmap fun _ : κ => ν} {i nelem : ℕ}
    {chain chain' : List (Entry κ ν)} (hchain : t.tab[i]? = some chain)
    (hchain' : ∀ p ∈ chain', p.hashKey = hash p.key ∧ p.hashKey.toNat % t.tabSize = i)
    (hm : (chain.map Entry.binding : Multiset (Binding κ ν)) + m'.entries
      = chain'.map Entry.binding + m.entries)
    (hnelem : nelem + chain.length = t.nelem + chain'.length)
    (hload : 10 * nelem ≤ 13 * t.tabSize + 10) :
    (⟨nelem, t.tab.set i chain'⟩ : ZcHashtable hash ν).Represents m' := by
  have hsize : (⟨nelem, t.tab.set i chain'⟩ : ZcHashtable hash ν).tabSize = t.tabSize :=
    List.length_set
  have hset := coe_set_add hchain chain'
  constructor
  · exact hsize ▸ h.size
  · intro p hp
    have hmem : p ∈ (((t.tab.set i chain').flatten : List _) : Multiset (Entry κ ν)) + chain :=
      Multiset.mem_add.mpr (.inl hp)
    rw [hset] at hmem
    rcases Multiset.mem_add.mp hmem with hold | hnew
    · exact h.hashed p hold
    · exact (hchain' p hnew).1
  · rw [hsize]
    exact h.placed.set fun p hp => (hchain' p hp).2
  · have hmap := congrArg (Multiset.map Entry.binding) hset
    simp only [Multiset.map_add, Multiset.map_coe] at hmap
    have hentries : (t.tab.flatten.map Entry.binding : Multiset (Binding κ ν)) = m.entries :=
      h.bindings
    rw [hentries, add_comm m.entries, ← hm, add_comm (Multiset.ofList (chain.map _))] at hmap
    exact add_right_cancel hmap
  · have hcard := congrArg Multiset.card hset
    simp only [Multiset.card_add, Multiset.coe_card] at hcard
    have hold : t.nelem = t.tab.flatten.length := h.nelem
    show nelem = (t.tab.set i chain').flatten.length
    omega
  · exact hsize ▸ hload

/-! ## Rehashing -/

theorem link_placed {tab : List (List (Entry κ ν))} (hsize : 0 < tab.length)
    (hplaced : Placed (fun p : Entry κ ν => p.hashKey.toNat % tab.length) tab) (p : Entry κ ν) :
    ∃ tab', link tab p = some tab' ∧ tab'.length = tab.length
      ∧ Placed (fun p : Entry κ ν => p.hashKey.toNat % tab.length) tab'
      ∧ ((tab'.flatten : List _) : Multiset (Entry κ ν)) = p ::ₘ tab.flatten := by
  have hlt : p.hashKey.toNat % tab.length < tab.length := Nat.mod_lt _ hsize
  have hchain := List.getElem?_eq_getElem hlt
  refine ⟨tab.set (p.hashKey.toNat % tab.length) (p :: tab[p.hashKey.toNat % tab.length]), ?_,
    List.length_set, ?_, ?_⟩
  · simp [link, hchain]
  · refine hplaced.set fun q hq => ?_
    rcases List.mem_cons.mp hq with rfl | hq
    · rfl
    · exact hplaced _ _ hchain q hq
  · have hset := coe_set_add hchain (p :: tab[p.hashKey.toNat % tab.length])
    rw [← Multiset.cons_coe, Multiset.add_cons, ← Multiset.cons_add] at hset
    exact add_right_cancel hset

theorem foldlM_link (ps : List (Entry κ ν)) {tab : List (List (Entry κ ν))} (hsize : 0 < tab.length)
    (hplaced : Placed (fun p : Entry κ ν => p.hashKey.toNat % tab.length) tab) :
    ∃ tab', ps.foldlM link tab = some tab' ∧ tab'.length = tab.length
      ∧ Placed (fun p : Entry κ ν => p.hashKey.toNat % tab.length) tab'
      ∧ ((tab'.flatten : List _) : Multiset (Entry κ ν)) = ps + tab.flatten := by
  induction ps generalizing tab with
  | nil => exact ⟨tab, rfl, rfl, hplaced, by simp⟩
  | cons p ps ih =>
      obtain ⟨tab₁, hlink, hlength₁, hplaced₁, hflatten₁⟩ := link_placed hsize hplaced p
      rw [← hlength₁] at hsize hplaced₁
      obtain ⟨tab', hfold, hlength', hplaced', hflatten'⟩ := ih hsize hplaced₁
      refine ⟨tab', ?_, hlength'.trans hlength₁, ?_, ?_⟩
      · rw [List.foldlM_cons, hlink]
        exact hfold
      · rw [← hlength₁]
        exact hplaced'
      · rw [hflatten', hflatten₁, ← Multiset.cons_coe, Multiset.add_cons, Multiset.cons_add]

/-- **Rehashing keeps the entries**, in a table twice the size. -/
theorem zcHashtableRehash_represents (h : t.Represents m) (room : Bool) :
    ∃ rc t', zcHashtableRehash room t = some (rc, t') ∧ t'.Represents m ∧ t'.nelem = t.nelem
      ∧ (room = false ∧ rc = -1 ∨ rc = 0 ∧ t'.tabSize = 2 * t.tabSize) := by
  unfold zcHashtableRehash
  cases room with
  | false => exact ⟨-1, t, rfl, h, rfl, .inl ⟨rfl, rfl⟩⟩
  | true =>
      have hsize : 0 < (List.replicate (2 * t.tabSize) ([] : List (Entry κ ν))).length := by
        simpa using h.size
      obtain ⟨tab, hfold, hlength, hplaced, hflatten⟩ :=
        foldlM_link t.entries hsize (placed_replicate _ _)
      have hperm : ((tab.flatten : List _) : Multiset (Entry κ ν)) = t.entries := by
        simpa using hflatten
      rw [List.length_replicate] at hlength
      refine ⟨0, { t with tab := tab }, by simp [hfold], ?_, rfl, .inr ⟨rfl, hlength⟩⟩
      constructor
      · have hpos := h.size
        show 0 < tab.length
        omega
      · exact fun p hp => h.hashed p ((Multiset.coe_eq_coe.mp hperm).mem_iff.mp hp)
      · rw [List.length_replicate, ← hlength] at hplaced
        exact hplaced
      · have hmap := congrArg (Multiset.map Entry.binding) hperm
        exact hmap.trans h.bindings
      · exact h.nelem.trans (Multiset.coe_eq_coe.mp hperm).length_eq.symm
      · have hload := h.load
        show 10 * t.nelem ≤ 13 * tab.length + 10
        omega

theorem grow_represents (h : t.Represents m) (room : Bool) :
    ∃ rc t', grow room t = some (rc, t') ∧ t'.Represents m
      ∧ (room = false ∧ rc = -1 ∨ rc = 0 ∧ 10 * t'.nelem ≤ 13 * t'.tabSize) := by
  have hload := h.load
  have hpos := h.size
  unfold grow
  split
  · obtain ⟨rc, t', hrehash, hrep, hnelem, hcases⟩ := zcHashtableRehash_represents h room
    refine ⟨rc, t', hrehash, hrep, hcases.imp_right fun ⟨hrc, hsize⟩ => ⟨hrc, ?_⟩⟩
    omega
  · exact ⟨0, t, rfl, h, .inr ⟨rfl, by omega⟩⟩

/-! ## Visiting every entry -/

theorem firstFrom_cases (t : ZcHashtable hash ν) (n : ℕ) :
    ((t.tab.drop n).find? fun chain => chain ≠ []).getD [] = [] ∧ (t.tab.drop n).flatten = []
      ∨ ∃ i chain, ((t.tab.drop n).find? fun chain => chain ≠ []).getD [] = chain
        ∧ t.tab[i]? = some chain ∧ chain ≠ []
        ∧ (t.tab.drop n).flatten = chain ++ (t.tab.drop (i + 1)).flatten := by
  rcases find_cases (t.tab.drop n) with
    ⟨hfind, hflatten⟩ | ⟨i, chain, hfind, hchain, hne, hflatten⟩
  · exact .inl ⟨by rw [hfind]; rfl, hflatten⟩
  · rw [List.getElem?_drop] at hchain
    rw [List.drop_drop] at hflatten
    exact .inr ⟨n + i, chain, by rw [hfind]; rfl, hchain, hne, hflatten⟩

/-- From an entry on, the loop visits the rest of its chain and the chains after it. -/
theorem foreachFrom_eq (h : t.Represents m) {rounds i : ℕ} {before p : List (Entry κ ν)}
    (hchain : t.tab[i]? = some (before ++ p)) (hp : p ≠ [])
    (hrounds : (p ++ (t.tab.drop (i + 1)).flatten).length ≤ rounds) :
    foreachFrom t rounds p = some (p ++ (t.tab.drop (i + 1)).flatten) := by
  induction rounds generalizing i before p with
  | zero =>
      rw [Nat.le_zero, List.length_eq_zero_iff, List.append_eq_nil_iff] at hrounds
      exact absurd hrounds.1 hp
  | succ rounds ih =>
      obtain ⟨q, next, rfl⟩ := List.exists_cons_of_ne_nil hp
      rw [List.cons_append, List.length_cons, Nat.succ_le_succ_iff] at hrounds
      rw [foreachFrom, zcHashtableNext]
      cases next with
      | cons q' next =>
          rw [if_pos (List.cons_ne_nil _ _)]
          rw [List.append_cons] at hchain
          rw [ih hchain (List.cons_ne_nil _ _) hrounds]
          rfl
      | nil =>
          have hplace : q.hashKey.toNat % t.tabSize = i :=
            (h.hashed_chain hchain q (by simp)).2
          rw [if_neg (not_not.mpr rfl), hplace]
          rcases firstFrom_cases t (i + 1) with ⟨hfirst, hrest⟩ | ⟨j, chain, hfirst, hj, hne, hrest⟩
          · rw [hfirst, hrest]
            cases rounds <;> rfl
          · rw [hrest, List.nil_append] at hrounds
            rw [← List.nil_append chain] at hj
            rw [hfirst, hrest, ih hj hne hrounds]
            rfl

/-- **The loop visits every entry once** and ends. -/
theorem zcHashtableForeach_eq (h : t.Represents m) {rounds : ℕ} (hrounds : t.nelem ≤ rounds) :
    t.zcHashtableForeach rounds = some t.entries := by
  rw [h.nelem] at hrounds
  unfold zcHashtableForeach zcHashtableBegin
  unfold entries at hrounds ⊢
  rcases firstFrom_cases t 0 with ⟨hfirst, hrest⟩ | ⟨i, chain, hfirst, hi, hne, hrest⟩
  · rw [List.drop_zero] at hfirst hrest
    rw [hfirst, hrest]
    cases rounds <;> rfl
  · rw [List.drop_zero] at hfirst hrest
    rw [hrest] at hrounds
    rw [← List.nil_append chain] at hi
    rw [hfirst, hrest]
    exact foreachFrom_eq h hi hne hrounds

/-! ## Looking for a key -/

variable [DecidableEq κ]

theorem seek_cases (aKey : κ) (chain : List (Entry κ ν)) :
    (∃ before p next, seek aKey chain = (before, p :: next) ∧ chain = before ++ p :: next
        ∧ p.key = aKey)
      ∨ seek aKey chain = (chain, []) ∧ ∀ p ∈ chain, p.key ≠ aKey := by
  induction chain with
  | nil => exact .inr ⟨rfl, nofun⟩
  | cons q chain ih =>
      have hseek : seek aKey (q :: chain)
          = if aKey ≠ q.key then (q :: (seek aKey chain).1, (seek aKey chain).2)
            else ([], q :: chain) := by
        simp only [seek, List.span_eq_takeWhile_dropWhile, List.takeWhile_cons,
          List.dropWhile_cons, decide_eq_true_eq]
        split <;> rfl
      by_cases hq : aKey = q.key
      · exact .inl ⟨[], q, chain, by rw [hseek, if_neg (not_not.mpr hq)], rfl, hq.symm⟩
      · rw [hseek, if_pos hq]
        rcases ih with ⟨before, p, next, heq, rfl, hp⟩ | ⟨heq, hnone⟩
        · exact .inl ⟨q :: before, p, next, by rw [heq], rfl, hp⟩
        · rw [heq]
          exact .inr ⟨rfl, List.forall_mem_cons.mpr ⟨Ne.symm hq, hnone⟩⟩

theorem Represents.lookup_eq_some (h : t.Represents m) {aKey : κ} {aValue : ν} :
    m.lookup aKey = some aValue ↔ ∃ p ∈ t.entries, p.binding = ⟨aKey, aValue⟩ := by
  rw [Finmap.lookup_eq_some, ← h.bindings, Multiset.mem_coe, List.mem_map]

theorem Represents.not_mem (h : t.Represents m) {aKey : κ} {chain : List (Entry κ ν)}
    (hchain : t.tab[(hash aKey).toNat % t.tabSize]? = some chain)
    (hnone : ∀ p ∈ chain, p.key ≠ aKey) : aKey ∉ m := by
  rw [← Finmap.lookup_eq_none, Option.eq_none_iff_forall_ne_some]
  intro aValue hvalue
  obtain ⟨p, hp, hbinding⟩ := h.lookup_eq_some.mp hvalue
  obtain rfl : p.key = aKey := congrArg Sigma.fst hbinding
  exact hnone p ((h.mem_entries hchain).mp hp) rfl

/-- **Looking up is looking up in the finite map.** -/
theorem zcHashtableGet_represents (h : t.Represents m) (aKey : κ) :
    t.zcHashtableGet aKey = some (m.lookup aKey) := by
  obtain ⟨chain, hchain⟩ := h.exists_chain aKey
  unfold zcHashtableGet zcHashtableGetEntry
  rw [hchain]
  rcases seek_cases aKey chain with ⟨before, p, next, hseek, rfl, rfl⟩ | ⟨hseek, hnone⟩
  · have hp : p ∈ t.entries := (h.mem_entries hchain).mpr (by simp)
    have hlookup : m.lookup p.key = some p.value := h.lookup_eq_some.mpr ⟨p, hp, rfl⟩
    simp [hseek, hlookup]
  · simp [hseek, Finmap.lookup_eq_none.mpr (h.not_mem hchain hnone)]

/-! ## The operations -/

/-- The binding of an entry, apart from those of the others. -/
theorem Represents.entries_eq_cons (h : t.Represents m) {p : Entry κ ν} (hp : p ∈ t.entries) :
    ∃ rest, m.entries = p.binding ::ₘ rest :=
  Multiset.exists_cons_of_mem (Finmap.lookup_eq_some.mp (h.lookup_eq_some.mpr ⟨p, hp, rfl⟩))

/-- An entry gets a new value. -/
theorem Represents.replace (h : t.Represents m) {p : Entry κ ν} {before next : List (Entry κ ν)}
    (hchain : t.tab[(hash p.key).toNat % t.tabSize]? = some (before ++ p :: next)) (aValue : ν) :
    (⟨t.nelem, t.tab.set ((hash p.key).toNat % t.tabSize)
        (before ++ { p with value := aValue } :: next)⟩ : ZcHashtable hash ν).Represents
      (m.insert p.key aValue) := by
  obtain ⟨rest, hrest⟩ := h.entries_eq_cons ((h.mem_entries hchain).mpr (by simp))
  have hinsert : (m.insert p.key aValue).entries = ⟨p.key, aValue⟩ ::ₘ rest :=
    Finmap.entries_insert_of_mem hrest
  refine h.set hchain ?_ ?_ (by simp) h.load
  · intro q hq
    rcases List.mem_append.mp hq with hq | hq
    · exact h.hashed_chain hchain q (by simp [hq])
    · rcases List.mem_cons.mp hq with rfl | hq
      · exact h.hashed_chain hchain p (by simp)
      · exact h.hashed_chain hchain q (by simp [hq])
  · rw [hinsert, hrest]
    simp only [List.map_append, List.map_cons, ← Multiset.coe_add, ← Multiset.cons_coe,
      Multiset.add_cons, Multiset.cons_add]
    rw [Multiset.cons_swap]
    rfl

/-- A new entry is linked into its chain. -/
theorem Represents.link (h : t.Represents m) {aKey : κ} (hfresh : aKey ∉ m) (aValue : ν)
    (hload : 10 * t.nelem ≤ 13 * t.tabSize) :
    ∃ tab, link t.tab ⟨hash aKey, aKey, aValue⟩ = some tab
      ∧ (⟨t.nelem + 1, tab⟩ : ZcHashtable hash ν).Represents (m.insert aKey aValue) := by
  obtain ⟨chain, hchain⟩ := h.exists_chain aKey
  have hchain' : t.tab[(hash aKey).toNat % t.tab.length]? = some chain := hchain
  refine ⟨t.tab.set ((hash aKey).toNat % t.tabSize) (⟨hash aKey, aKey, aValue⟩ :: chain), ?_, ?_⟩
  · simp only [ZcHashtable.link, hchain', Option.map_some]
    rfl
  refine h.set hchain ?_ ?_ (by rw [List.length_cons]; omega) (by omega)
  · intro q hq
    rcases List.mem_cons.mp hq with rfl | hq
    · exact ⟨rfl, rfl⟩
    · exact h.hashed_chain hchain q hq
  · rw [Finmap.entries_insert_of_notMem hfresh, List.map_cons, ← Multiset.cons_coe,
      Multiset.add_cons, Multiset.cons_add]
    rfl

/-- An entry is unlinked from its chain. -/
theorem Represents.unlink (h : t.Represents m) {p : Entry κ ν} {before next : List (Entry κ ν)}
    (hchain : t.tab[(hash p.key).toNat % t.tabSize]? = some (before ++ p :: next)) :
    (⟨t.nelem - 1, t.tab.set ((hash p.key).toNat % t.tabSize) (before ++ next)⟩ :
      ZcHashtable hash ν).Represents (m.erase p.key) := by
  have hp : p ∈ t.entries := (h.mem_entries hchain).mpr (by simp)
  obtain ⟨rest, hrest⟩ := h.entries_eq_cons hp
  have hnelem : 0 < t.nelem := by
    rw [h.nelem]
    exact List.length_pos_of_mem hp
  have hload := h.load
  refine h.set hchain ?_ ?_ (by simp only [List.length_append, List.length_cons]; omega) (by omega)
  · intro q hq
    refine h.hashed_chain hchain q ?_
    rcases List.mem_append.mp hq with hq | hq <;> simp [hq]
  · rw [Finmap.entries_erase_of_mem hrest, hrest]
    simp only [List.map_append, List.map_cons, ← Multiset.coe_add, ← Multiset.cons_coe,
      Multiset.add_cons, Multiset.cons_add]

/-- **Putting is inserting**, unless there is no room for a new entry. -/
theorem zcHashtablePut_represents (h : t.Represents m) (room : Room) (aKey : κ) (aValue : ν) :
    ∃ rc deleted t', zcHashtablePut room aKey aValue t = some (rc, deleted, t')
      ∧ allowed (.put room aKey aValue) ⟨rc, deleted⟩
      ∧ t'.Represents (meaning (.put room aKey aValue) ⟨rc, deleted⟩ m)
      ∧ (deleted : Multiset (Binding κ ν))
          + (meaning (.put room aKey aValue) ⟨rc, deleted⟩ m).entries
        = given (.put room aKey aValue) ⟨rc, deleted⟩ + m.entries := by
  obtain ⟨chain, hchain⟩ := h.exists_chain aKey
  unfold zcHashtablePut
  simp only [hchain, Option.bind_eq_bind, Option.bind_some]
  rcases seek_cases aKey chain with ⟨before, p, next, hseek, rfl, rfl⟩ | ⟨hseek, hnone⟩
  · -- the key is there: its entry gets the new value
    obtain ⟨rest, hrest⟩ := h.entries_eq_cons ((h.mem_entries hchain).mpr (by simp))
    rw [hseek]
    refine ⟨0, [p.binding], _, rfl, .inl rfl, h.replace hchain aValue, ?_⟩
    show ([p.binding] : Multiset (Binding κ ν)) + (m.insert p.key aValue).entries
      = ([⟨p.key, aValue⟩] : List (Binding κ ν)) + m.entries
    rw [Finmap.entries_insert_of_mem hrest, hrest, Multiset.coe_singleton, Multiset.coe_singleton,
      Multiset.singleton_add, Multiset.singleton_add, Multiset.cons_swap]
  · -- the key is new, and the table may have to grow before it gets an entry
    have hfresh : aKey ∉ m := h.not_mem hchain hnone
    obtain ⟨rc, t₁, hgrow, h₁, hcases⟩ := grow_represents h room.table
    rw [hseek]
    simp only [hgrow, Option.bind_some]
    rcases hcases with ⟨htable, rfl⟩ | ⟨rfl, hload⟩
    · exact ⟨-1, [], t₁, rfl, .inr ⟨rfl, .inl htable⟩, h₁, rfl⟩
    · rw [if_neg (not_not.mpr rfl)]
      cases hentry : room.entry with
      | false => exact ⟨-1, [], t₁, rfl, .inr ⟨rfl, .inr hentry⟩, h₁, rfl⟩
      | true =>
          obtain ⟨tab, hlink, h₂⟩ := h₁.link hfresh aValue hload
          rw [if_neg (by simp), hlink]
          refine ⟨0, [], _, rfl, .inl rfl, h₂, ?_⟩
          show _ + (m.insert aKey aValue).entries = ([⟨aKey, aValue⟩] : List (Binding κ ν)) + _
          rw [Finmap.entries_insert_of_notMem hfresh, Multiset.coe_singleton,
            Multiset.singleton_add, Multiset.coe_nil, zero_add]

/-- **Removing is erasing.** -/
theorem zcHashtableRemove_represents (h : t.Represents m) (aKey : κ) :
    ∃ deleted t', zcHashtableRemove aKey t = some (deleted, t') ∧ t'.Represents (m.erase aKey)
      ∧ (deleted : Multiset (Binding κ ν)) + (m.erase aKey).entries = m.entries := by
  obtain ⟨chain, hchain⟩ := h.exists_chain aKey
  unfold zcHashtableRemove
  simp only [hchain, Option.bind_eq_bind, Option.bind_some]
  rcases seek_cases aKey chain with ⟨before, p, next, hseek, rfl, rfl⟩ | ⟨hseek, hnone⟩
  · have hp : p ∈ t.entries := (h.mem_entries hchain).mpr (by simp)
    obtain ⟨rest, hrest⟩ := h.entries_eq_cons hp
    have hdeleted : ([p.binding] : Multiset (Binding κ ν)) + (m.erase p.key).entries
        = m.entries := by
      rw [Finmap.entries_erase_of_mem hrest, hrest, Multiset.coe_singleton, Multiset.singleton_add]
    have hunlink := h.unlink hchain
    rw [hseek]
    cases before with
    | nil =>
        rw [← h.hashed p hp] at hunlink
        exact ⟨[p.binding], _, rfl, hunlink, hdeleted⟩
    | cons q before => exact ⟨[p.binding], _, rfl, hunlink, hdeleted⟩
  · rw [hseek, Finmap.erase_of_notMem (h.not_mem hchain hnone)]
    exact ⟨[], t, rfl, h, by rw [Multiset.coe_nil, zero_add]⟩

/-! ## Runs -/

theorem exec_represents (op : Op κ ν) (t : ZcHashtable hash ν) (m : Finmap fun _ : κ => ν)
    (h : t.Represents m) :
    ∃ out t', exec op t = some (out, t') ∧ allowed op out ∧ t'.Represents (meaning op out m)
      ∧ (out.deleted : Multiset (Binding κ ν)) + (meaning op out m).entries
        = given op out + m.entries := by
  cases op with
  | put room aKey aValue =>
      obtain ⟨rc, deleted, t', hput, hallowed, h', hbalance⟩ :=
        zcHashtablePut_represents h room aKey aValue
      exact ⟨⟨rc, deleted⟩, t', by simp [exec, hput], hallowed, h', hbalance⟩
  | remove aKey =>
      obtain ⟨deleted, t', hremove, h', hbalance⟩ := zcHashtableRemove_represents h aKey
      refine ⟨⟨0, deleted⟩, t', by simp [exec, hremove], rfl, h', ?_⟩
      exact hbalance.trans (zero_add _).symm
  | clean =>
      refine ⟨⟨0, t.zcHashtableClean.1⟩, t.zcHashtableClean.2, rfl, rfl,
        zcHashtableClean_represents h, ?_⟩
      rw [← h.bindings]
      exact add_comm _ _

/-- A key is put twice, another one without room for its entry, and a third one is removed again. -/
def sampleOps : List (Op Text ℕ) :=
  [.put ⟨true, true⟩ ['a'] 1, .put ⟨true, true⟩ ['a'] 2, .put ⟨true, false⟩ ['b'] 3,
    .put ⟨true, true⟩ ['c'] 4, .remove ['c']]

/-- **A run of operations does what it does to a finite map**, whatever memory is refused: a lookup
    finds what the map has, the count of the elements is right, and the chains are not overloaded.
    Only a put without the memory fails. -/
theorem runs_represents (hash : κ → UInt32) {aSize : ℕ} (hsize : 0 < aSize) (ops : List (Op κ ν)) :
    ∃ outs t, Simulation.runs exec ops (zcHashtableNew hash ν aSize) = some (outs, t)
      ∧ List.Forall₂ allowed ops outs
      ∧ (∀ aKey, t.zcHashtableGet aKey
          = some ((Simulation.replay meaning ops outs ∅).lookup aKey))
      ∧ t.nelem = (Simulation.replay meaning ops outs ∅).keys.card
      ∧ 10 * t.nelem ≤ 13 * t.tabSize + 10 := by
  obtain ⟨outs, t, hruns, hallowed, h⟩ := Simulation.runs_simulates
    (fun op t m h => (exec_represents op t m h).imp fun _ => .imp fun _ h => ⟨h.1, h.2.1, h.2.2.1⟩)
    ops (zcHashtableNew_represents hash ν hsize)
  refine ⟨outs, t, hruns, hallowed, zcHashtableGet_represents h, ?_, h.load⟩
  have hcard := congrArg Multiset.card h.bindings
  rw [Multiset.coe_card, List.length_map] at hcard
  rw [h.nelem, hcard]
  exact (Multiset.card_map ..).symm

theorem runs_represents_sample :
    ∃ outs t, Simulation.runs exec sampleOps (zcHashtableNew zcHashtableStrHash ℕ 20)
        = some (outs, t)
      ∧ List.Forall₂ allowed sampleOps outs
      ∧ (∀ aKey, t.zcHashtableGet aKey
          = some ((Simulation.replay meaning sampleOps outs ∅).lookup aKey))
      ∧ t.nelem = (Simulation.replay meaning sampleOps outs ∅).keys.card
      ∧ 10 * t.nelem ≤ 13 * t.tabSize + 10 :=
  runs_represents zcHashtableStrHash (Nat.succ_pos 19) sampleOps

/-- **A loop over the table ends and visits every binding once**, after any run of operations. -/
theorem runs_foreach (hash : κ → UInt32) {aSize : ℕ} (hsize : 0 < aSize) (ops : List (Op κ ν)) :
    ∃ outs t visited, Simulation.runs exec ops (zcHashtableNew hash ν aSize) = some (outs, t)
      ∧ (∀ rounds, t.nelem ≤ rounds → t.zcHashtableForeach rounds = some visited)
      ∧ (visited.map Entry.binding : Multiset (Binding κ ν))
        = (Simulation.replay meaning ops outs ∅).entries := by
  obtain ⟨outs, t, hruns, -, h⟩ := Simulation.runs_simulates
    (fun op t m h => (exec_represents op t m h).imp fun _ => .imp fun _ h => ⟨h.1, h.2.1, h.2.2.1⟩)
    ops (zcHashtableNew_represents hash ν hsize)
  exact ⟨outs, t, t.entries, hruns, fun _ hrounds => zcHashtableForeach_eq h hrounds, h.bindings⟩

theorem runs_foreach_sample :
    ∃ outs t visited, Simulation.runs exec sampleOps (zcHashtableNew zcHashtableStrHash ℕ 20)
        = some (outs, t)
      ∧ (∀ rounds, t.nelem ≤ rounds → t.zcHashtableForeach rounds = some visited)
      ∧ (visited.map Entry.binding : Multiset (Binding Text ℕ))
        = (Simulation.replay meaning sampleOps outs ∅).entries :=
  runs_foreach zcHashtableStrHash (Nat.succ_pos 19) sampleOps

/-- **What is put into the table is deleted exactly once**: when it is replaced, removed or cleaned
    out, or with the table. -/
theorem runs_deletes (hash : κ → UInt32) {aSize : ℕ} (hsize : 0 < aSize) (ops : List (Op κ ν)) :
    ∃ outs t, Simulation.runs exec ops (zcHashtableNew hash ν aSize) = some (outs, t)
      ∧ (outs.flatMap Out.deleted ++ t.zcHashtableDel).Perm
        ((ops.zip outs).flatMap fun step => given step.1 step.2) := by
  have hstep : ∀ (op : Op κ ν) (t : ZcHashtable hash ν), (∃ m, t.Represents m) →
      ∃ out t', exec op t = some (out, t') ∧ (∃ m, t'.Represents m)
        ∧ (out.deleted : Multiset (Binding κ ν)) + t'.entries.map Entry.binding
          = given op out + t.entries.map Entry.binding := by
    rintro op t ⟨m, h⟩
    obtain ⟨out, t', hexec, -, h', hbalance⟩ := exec_represents op t m h
    exact ⟨out, t', hexec, ⟨_, h'⟩, by rw [h'.bindings, h.bindings, hbalance]⟩
  have hnew : (zcHashtableNew hash ν aSize).entries = [] := by
    simp [entries, zcHashtableNew]
  obtain ⟨outs, t, hruns, hlength, -, hbalance⟩ := Simulation.runs_balance
    (fun t : ZcHashtable hash ν => (t.entries.map Entry.binding : Multiset (Binding κ ν)))
    (fun op out => (given op out : Multiset (Binding κ ν)))
    (fun _ out => (out.deleted : Multiset (Binding κ ν)))
    hstep ops ⟨∅, zcHashtableNew_represents hash ν hsize⟩
  refine ⟨outs, t, hruns, ?_⟩
  have hdeleted : (ops.zip outs).flatMap (fun step => step.2.deleted)
      = outs.flatMap Out.deleted := by
    conv_rhs => rw [← List.map_snd_zip (le_of_eq hlength), List.flatMap_map]
  rw [sum_map_coe, sum_map_coe, hnew, Multiset.coe_add, List.map_nil, Multiset.coe_nil, add_zero,
    Multiset.coe_eq_coe, hdeleted] at hbalance
  exact hbalance

theorem runs_deletes_sample :
    ∃ outs t, Simulation.runs exec sampleOps (zcHashtableNew zcHashtableStrHash ℕ 20)
        = some (outs, t)
      ∧ (outs.flatMap Out.deleted ++ t.zcHashtableDel).Perm
        ((sampleOps.zip outs).flatMap fun step => given step.1 step.2) :=
  runs_deletes zcHashtableStrHash (Nat.succ_pos 19) sampleOps

end ZcHashtable

end CLogTest.Zlog

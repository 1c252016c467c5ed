import CLogTest.Zlog.Category
import CLogTest.Zlog.Hashtable
import CLogTest.Zlog.Rotater

set_option autoImplicit false

/-! # Updating categories (`src/zlog/category.c`, `src/zlog/category_table.c`)

A program keeps pointers to its categories, so new rules are put into the categories there are: each
gets a new list and keeps the old one, until the update of all of them is committed or rolled back.
Whatever memory is refused on the way, a roll back restores every category
(`rollback_after_update`). -/

namespace CLogTest.Zlog.Environment

open ZcHashtable

/-! ## Memory -/

/-- `zc_arraylist_new`. -/
def zcArraylistNew (α : Type) (w : World) : Option (ZcArraylist α) × World :=
  let (list, w) := w.attempt
  if list = false then (none, w)
  else
    let (array, w) := w.attempt
    if array then (some .new, w) else (none, w)

/-- `zc_arraylist_add`: a full list needs memory. -/
def zcArraylistAdd {α : Type} (data : α) (l : ZcArraylist α) (w : World) :
    Option (Bool × ZcArraylist α × World) :=
  let (room, w) := if l.size - 1 < l.array.length then w.attempt else (true, w)
  if room = false then some (false, l, w)
  else (l.set l.array.length data).map fun l => (true, l, w)

/-! ## Categories -/

/-- A rule, with the number of the configuration that it is freed with. -/
structure RulePtr where
  serial : ℕ
  rule : Rule

/-- `zlog_category_t`. `fitRules` is null after an update that failed. -/
structure Category where
  name : Text
  levelBitmap : Bitmap
  levelBitmapBackup : Bitmap
  fitRules : Option (ZcArraylist RulePtr)
  fitRulesBackup : Option (ZcArraylist RulePtr)

/-- Add a rule and overlap its bitmap; the list is there. -/
def addRule (p : RulePtr) (c : Category) (w : World) : Option (Bool × Category × World) := do
  let l ← c.fitRules
  let (ok, l, w) ← zcArraylistAdd p l w
  if ok = false then some (false, { c with fitRules := some l }, w)
  else
    some (true, { c with
      fitRules := some l
      levelBitmap := c.levelBitmap.overlap p.rule.levelBitmap }, w)

/-- A rule is added if it fits. -/
def obtainRule (p : RulePtr) (c : Category) (w : World) : Option (Bool × Category × World) :=
  if zlogRuleMatchCategory p.rule c.name then addRule p c w else some (true, c, w)

/-- The loop of `zlog_category_obtain_rules`, with the last wastebin rule so far. -/
def obtainFrom : List RulePtr → Option RulePtr → Category → World →
    Option (Bool × Option RulePtr × Category × World)
  | [], wastebinRule, c, w => some (true, wastebinRule, c, w)
  | p :: rules, wastebinRule, c, w => do
      let (ok, c, w) ← obtainRule p c w
      if ok = false then some (false, wastebinRule, c, w)
      else obtainFrom rules (if zlogRuleIsWastebin p.rule then some p else wastebinRule) c w

/-- The end of `zlog_category_obtain_rules`: the wastebin rule, if no other one fits. -/
def obtainWastebin (wastebinRule : Option RulePtr) (c : Category) (w : World) :
    Option (Bool × Category × World) :=
  match c.fitRules, wastebinRule with
  | some l, some p => if l.array.length = 0 then addRule p c w else some (true, c, w)
  | _, _ => some (true, c, w)

/-- `zlog_category_obtain_rules`: does it succeed? -/
def zlogCategoryObtainRules (rules : List RulePtr) (c : Category) (w : World) :
    Option (Bool × Category × World) := do
  let (l, w) := zcArraylistNew RulePtr w
  let c := { c with levelBitmap := Bitmap.memset 0x00#8, fitRules := l }
  if l.isNone then some (false, c, w)
  else
    let (ok, wastebinRule, c, w) ← obtainFrom rules none c w
    if ok = false then some (false, { c with fitRules := none }, w)
    else
      let (ok, c, w) ← obtainWastebin wastebinRule c w
      if ok = false then some (false, { c with fitRules := none }, w) else some (true, c, w)

/-- `zlog_category_new`. -/
def zlogCategoryNew (name : Text) (rules : List RulePtr) (w : World) :
    Option (Option Category × World) :=
  if maxlenPath < name.length then some (none, w)
  else
    let (room, w) := w.attempt
    if room = false then some (none, w)
    else do
      let zero := Bitmap.memset 0x00#8
      let (ok, c, w) ← zlogCategoryObtainRules rules ⟨name, zero, zero, none, none⟩ w
      some (if ok then some c else none, w)

/-- `zlog_category_update_rules`. -/
def zlogCategoryUpdateRules (newRules : List RulePtr) (c : Category) (w : World) :
    Option (Bool × Category × World) :=
  zlogCategoryObtainRules newRules
    { c with fitRulesBackup := c.fitRules, fitRules := none, levelBitmapBackup := c.levelBitmap } w

/-- `zlog_category_commit_rules`. -/
def zlogCategoryCommitRules (c : Category) : Category :=
  if c.fitRulesBackup.isNone then c
  else { c with fitRulesBackup := none, levelBitmapBackup := Bitmap.memset 0x00#8 }

/-- The categories in memory, by their addresses. -/
abbrev Heap := ℕ → Option Category

/-- `zlog_category_table_new` gives a table of this type, from names to addresses. -/
abbrev Table := ZcHashtable zcHashtableStrHash ℕ

/-- The loop of `zlog_category_table_update_rules`. -/
def updateAll (newRules : List RulePtr) : List ℕ → Heap → World → Option (Bool × Heap × World)
  | [], heap, w => some (true, heap, w)
  | a :: as, heap, w => do
      let c ← heap a
      let (ok, c, w) ← zlogCategoryUpdateRules newRules c w
      let heap := Function.update heap a (some c)
      if ok = false then some (false, heap, w) else updateAll newRules as heap w

/-- `zlog_category_table_update_rules`. -/
def zlogCategoryTableUpdateRules (newRules : List RulePtr) (categories : Table) (heap : Heap)
    (w : World) : Option (Bool × Heap × World) := do
  let entries ← categories.zcHashtableForeach categories.nelem
  updateAll newRules (entries.map Entry.value) heap w

/-- A loop that changes every category. -/
def changeAll (f : Category → Category) : List ℕ → Heap → Option Heap
  | [], heap => some heap
  | a :: as, heap => do
      let c ← heap a
      changeAll f as (Function.update heap a (some (f c)))

/-- `zlog_category_table_commit_rules`. -/
def zlogCategoryTableCommitRules (categories : Table) (heap : Heap) : Option Heap := do
  let entries ← categories.zcHashtableForeach categories.nelem
  changeAll zlogCategoryCommitRules (entries.map Entry.value) heap

/-- `zlog_category_table_del`: every category is freed. -/
def zlogCategoryTableDel (categories : Table) (heap : Heap) : Heap := fun a =>
  if a ∈ categories.zcHashtableDel.map Sigma.snd then none else heap a

/-- What `calloc` finds for an entry of the table, and the environment afterwards. -/
def roomFor (w : World) : Room × World :=
  let (table, w) := w.attempt
  let (entry, w) := w.attempt
  (⟨table, entry⟩, w)

/-- `zlog_category_table_fetch_category`, where a new category gets the address `next`. -/
def zlogCategoryTableFetchCategory (name : Text) (rules : List RulePtr) (next : ℕ)
    (categories : Table) (heap : Heap) (w : World) :
    Option (Option ℕ × Table × Heap × World) := do
  match ← categories.zcHashtableGet name with
  | some a => some (some a, categories, heap, w)
  | none =>
      let (found, w) ← zlogCategoryNew name rules w
      match found with
      | none => some (none, categories, heap, w)
      | some c =>
          let (room, w) := roomFor w
          let (rc, _, categories) ← zcHashtablePut room name next categories
          if rc ≠ 0 then some (none, categories, heap, w)
          else some (some next, categories, Function.update heap next (some c), w)

/-! ## The rules of a category -/

/-- `selectedRules`, on pointers. -/
def selectedPtrs (name : Text) (rules : List RulePtr) : List RulePtr :=
  let fit := rules.filter fun p => zlogRuleMatchCategory p.rule name
  if fit = [] then ((rules.filter fun p => zlogRuleIsWastebin p.rule).getLast?).toList else fit

/-- The category has these rules, and the union of their bitmaps. -/
structure Category.Has (c : Category) (ps : List RulePtr) : Prop where
  fitRules : ∃ l, c.fitRules = some l ∧ l.Holds ps
  bitmap : ∀ lv, c.levelBitmap.allows lv = ps.any fun p => p.rule.levelBitmap.allows lv

/-- What obtaining rules does not touch. -/
structure Category.Kept (c c' : Category) : Prop where
  name : c'.name = c.name
  fitRulesBackup : c'.fitRulesBackup = c.fitRulesBackup
  levelBitmapBackup : c'.levelBitmapBackup = c.levelBitmapBackup

theorem Category.Kept.refl (c : Category) : c.Kept c := ⟨rfl, rfl, rfl⟩

theorem Category.Kept.trans {c c' c'' : Category} (h : c.Kept c') (h' : c'.Kept c'') :
    c.Kept c'' :=
  ⟨h'.name.trans h.name, h'.fitRulesBackup.trans h.fitRulesBackup,
    h'.levelBitmapBackup.trans h.levelBitmapBackup⟩

theorem not_reliable_of_refused {w : World} (h : w.attempt.1 = false) : ¬ w.Reliable := fun hw =>
  Bool.noConfusion (h.symm.trans (World.attempt_of_reliable hw))

theorem zcArraylistNew_cases (α : Type) (w : World) :
    ∃ l w', zcArraylistNew α w = (l, w') ∧ (w.Reliable → w'.Reliable)
      ∧ (l = none ∧ ¬ w.Reliable ∨ l = some .new) := by
  unfold zcArraylistNew
  cases hlist : w.attempt.1 with
  | false =>
      exact ⟨none, w.attempt.2, by simp [hlist], w.attempt_silent.reliable,
        .inl ⟨rfl, not_reliable_of_refused hlist⟩⟩
  | true =>
      have hw₁ := w.attempt_silent.reliable
      have hw₂ := w.attempt.2.attempt_silent.reliable
      cases harray : w.attempt.2.attempt.1 with
      | false =>
          exact ⟨none, _, by simp [hlist, harray], hw₂ ∘ hw₁,
            .inl ⟨rfl, fun hw => not_reliable_of_refused harray (hw₁ hw)⟩⟩
      | true => exact ⟨some .new, _, by simp [hlist, harray], hw₂ ∘ hw₁, .inr rfl⟩

theorem zcArraylistAdd_cases {α : Type} {l : ZcArraylist α} {xs : List α} (h : l.Holds xs)
    (data : α) (w : World) :
    ∃ ok l' w', zcArraylistAdd data l w = some (ok, l', w') ∧ (w.Reliable → w'.Reliable)
      ∧ (ok = false ∧ ¬ w.Reliable ∨ ok = true ∧ l'.Holds (xs ++ [data])) := by
  have hlength : l.array.length = xs.length := by rw [h.array, List.length_map]
  obtain ⟨l', hset, h'⟩ := h.add data
  unfold zcArraylistAdd
  rw [hlength, hset]
  by_cases hfull : l.size - 1 < xs.length
  · rw [if_pos hfull]
    cases hroom : w.attempt.1 with
    | false =>
        exact ⟨false, l, w.attempt.2, by simp [hroom], w.attempt_silent.reliable,
          .inl ⟨rfl, not_reliable_of_refused hroom⟩⟩
    | true =>
        exact ⟨true, l', w.attempt.2, by simp [hroom], w.attempt_silent.reliable, .inr ⟨rfl, h'⟩⟩
  · rw [if_neg hfull]
    exact ⟨true, l', w, rfl, id, .inr ⟨rfl, h'⟩⟩

theorem addRule_cases {c : Category} {ps : List RulePtr} (h : c.Has ps) (p : RulePtr) (w : World) :
    ∃ ok c' w', addRule p c w = some (ok, c', w') ∧ (w.Reliable → w'.Reliable) ∧ c.Kept c'
      ∧ (ok = false ∧ ¬ w.Reliable ∨ ok = true ∧ c'.Has (ps ++ [p])) := by
  obtain ⟨l, hl, hholds⟩ := h.fitRules
  obtain ⟨ok, l', w', hadd, hw', hcases⟩ := zcArraylistAdd_cases hholds p w
  unfold addRule
  rw [hl]
  simp only [Option.bind_eq_bind, Option.bind_some, hadd]
  rcases hcases with ⟨rfl, hw⟩ | ⟨rfl, hholds'⟩
  · exact ⟨false, _, w', rfl, hw', ⟨rfl, rfl, rfl⟩, .inl ⟨rfl, hw⟩⟩
  · refine ⟨true, _, w', rfl, hw', ⟨rfl, rfl, rfl⟩, .inr ⟨rfl, ⟨l', rfl, hholds'⟩, fun lv => ?_⟩⟩
    rw [Bitmap.overlap_allows, h.bitmap, List.any_append, List.any_cons, List.any_nil,
      Bool.or_false]

theorem obtainRule_cases {c : Category} {ps : List RulePtr} (h : c.Has ps) (p : RulePtr)
    (w : World) :
    ∃ ok c' w', obtainRule p c w = some (ok, c', w') ∧ (w.Reliable → w'.Reliable) ∧ c.Kept c'
      ∧ (ok = false ∧ ¬ w.Reliable
        ∨ ok = true ∧ c'.Has (ps ++ [p].filter fun p => zlogRuleMatchCategory p.rule c.name)) := by
  unfold obtainRule
  by_cases hmatch : zlogRuleMatchCategory p.rule c.name = true
  · simpa [hmatch] using addRule_cases h p w
  · exact ⟨true, c, w, by simp [hmatch], id, .refl c, .inr ⟨rfl, by simpa [hmatch] using h⟩⟩

/-- The loop adds the rules that match, unless memory is refused. -/
theorem obtainFrom_cases (rules : List RulePtr) {c : Category} {ps : List RulePtr} (h : c.Has ps)
    (wastebinRule : Option RulePtr) (w : World) :
    ∃ ok wastebinRule' c' w', obtainFrom rules wastebinRule c w = some (ok, wastebinRule', c', w')
      ∧ (w.Reliable → w'.Reliable) ∧ c.Kept c'
      ∧ (ok = false ∧ ¬ w.Reliable
        ∨ ok = true ∧ c'.Has (ps ++ rules.filter fun p => zlogRuleMatchCategory p.rule c.name)
          ∧ wastebinRule' = ((rules.filter fun p => zlogRuleIsWastebin p.rule).getLast?).or
            wastebinRule) := by
  induction rules generalizing c ps wastebinRule w with
  | nil => exact ⟨true, wastebinRule, c, w, rfl, id, .refl c, .inr ⟨rfl, by simpa using h, rfl⟩⟩
  | cons p rules ih =>
      obtain ⟨ok, c₁, w₁, hrule, hw₁, hkept₁, hcases⟩ := obtainRule_cases h p w
      rcases hcases with ⟨rfl, hw⟩ | ⟨rfl, hhas⟩
      · exact ⟨false, wastebinRule, c₁, w₁, by simp [obtainFrom, hrule], hw₁, hkept₁,
          .inl ⟨rfl, hw⟩⟩
      obtain ⟨ok, wastebinRule', c', w', hfrom, hw', hkept', hcases⟩ :=
        ih hhas (if zlogRuleIsWastebin p.rule then some p else wastebinRule) w₁
      refine ⟨ok, wastebinRule', c', w', by simp [obtainFrom, hrule, hfrom], hw' ∘ hw₁,
        hkept₁.trans hkept', ?_⟩
      rcases hcases with ⟨rfl, hw⟩ | ⟨rfl, hhas', hwastebin⟩
      · exact .inl ⟨rfl, fun h => hw (hw₁ h)⟩
      refine .inr ⟨rfl, ?_, ?_⟩
      · rw [hkept₁.name, List.append_assoc, ← List.filter_append] at hhas'
        exact hhas'
      · rw [hwastebin]
        by_cases hbin : zlogRuleIsWastebin p.rule = true
        · cases hrest : (rules.filter fun p => zlogRuleIsWastebin p.rule).getLast? with
          | none => simp [hbin, List.getLast?_cons, hrest]
          | some last => simp [hbin, List.getLast?_cons, hrest]
        · simp [hbin]

theorem obtainWastebin_cases {c : Category} {ps : List RulePtr} (h : c.Has ps)
    (wastebinRule : Option RulePtr) (w : World) :
    ∃ ok c' w', obtainWastebin wastebinRule c w = some (ok, c', w')
      ∧ (w.Reliable → w'.Reliable) ∧ c.Kept c'
      ∧ (ok = false ∧ ¬ w.Reliable
        ∨ ok = true ∧ c'.Has (if ps = [] then wastebinRule.toList else ps)) := by
  obtain ⟨l, hl, hholds⟩ := h.fitRules
  have hlength : l.array.length = 0 ↔ ps = [] := by
    rw [hholds.array, List.length_map, List.length_eq_zero_iff]
  unfold obtainWastebin
  rw [hl]
  cases wastebinRule with
  | none =>
      refine ⟨true, c, w, rfl, id, .refl c, .inr ⟨rfl, ?_⟩⟩
      split
      · next hps =>
          rw [hps] at h
          exact h
      · exact h
  | some p =>
      by_cases hps : ps = []
      · subst hps
        simpa [hlength] using addRule_cases h p w
      · exact ⟨true, c, w, by simp [hlength, hps], id, .refl c, .inr ⟨rfl, by simpa [hps] using h⟩⟩

/-- **Obtaining rules**: a category has the selected rules, or none if memory is refused. -/
theorem zlogCategoryObtainRules_cases (rules : List RulePtr) (c : Category) (w : World) :
    ∃ ok c' w', zlogCategoryObtainRules rules c w = some (ok, c', w')
      ∧ (w.Reliable → w'.Reliable) ∧ c.Kept c'
      ∧ (ok = false ∧ c'.fitRules = none ∧ ¬ w.Reliable
        ∨ ok = true ∧ c'.Has (selectedPtrs c.name rules)) := by
  obtain ⟨l, w₁, hnew, hw₁, hcases⟩ := zcArraylistNew_cases RulePtr w
  unfold zlogCategoryObtainRules
  rw [hnew]
  rcases hcases with ⟨rfl, hw⟩ | rfl
  · exact ⟨false, _, w₁, rfl, hw₁, ⟨rfl, rfl, rfl⟩, .inl ⟨rfl, rfl, hw⟩⟩
  have hstart : Category.Has { c with levelBitmap := Bitmap.memset 0x00#8, fitRules := some .new }
      [] := ⟨⟨_, rfl, ZcArraylist.new_holds⟩, Bitmap.memset_zero_allows⟩
  obtain ⟨ok, wastebinRule, c₂, w₂, hfrom, hw₂, hkept₂, hcases⟩ :=
    obtainFrom_cases rules hstart none w₁
  have hkept : c.Kept c₂ := ⟨hkept₂.name, hkept₂.fitRulesBackup, hkept₂.levelBitmapBackup⟩
  simp only [Option.isNone_some, Bool.false_eq_true, if_false, hfrom, Option.bind_eq_bind,
    Option.bind_some]
  rcases hcases with ⟨rfl, hw⟩ | ⟨rfl, hhas, hwastebin⟩
  · exact ⟨false, _, w₂, rfl, hw₂ ∘ hw₁, ⟨hkept.name, hkept.fitRulesBackup,
      hkept.levelBitmapBackup⟩, .inl ⟨rfl, rfl, fun h => hw (hw₁ h)⟩⟩
  rw [List.nil_append] at hhas
  rw [Option.or_none] at hwastebin
  obtain ⟨ok, c₃, w₃, hbin, hw₃, hkept₃, hcases⟩ := obtainWastebin_cases hhas wastebinRule w₂
  simp only [Bool.true_eq_false, if_false, hbin, Option.bind_some]
  rcases hcases with ⟨rfl, hw⟩ | ⟨rfl, hhas'⟩
  · exact ⟨false, _, w₃, rfl, hw₃ ∘ hw₂ ∘ hw₁, ⟨hkept₃.name.trans hkept.name,
      hkept₃.fitRulesBackup.trans hkept.fitRulesBackup,
      hkept₃.levelBitmapBackup.trans hkept.levelBitmapBackup⟩,
      .inl ⟨rfl, rfl, fun h => hw (hw₂ (hw₁ h))⟩⟩
  · refine ⟨true, c₃, w₃, rfl, hw₃ ∘ hw₂ ∘ hw₁, hkept.trans hkept₃, .inr ⟨rfl, ?_⟩⟩
    rw [hwastebin] at hhas'
    exact hhas'

/-! ## One category updated -/

/-- The category after an update that succeeded: the new rules, and the old ones behind them. -/
structure Category.Updated (rules : List RulePtr) (c c' : Category) : Prop where
  name : c'.name = c.name
  has : c'.Has (selectedPtrs c.name rules)
  fitRulesBackup : c'.fitRulesBackup = c.fitRules
  levelBitmapBackup : c'.levelBitmapBackup = c.levelBitmap

/-- The category after an update that failed: no rules, and the old ones behind them. -/
structure Category.Emptied (c c' : Category) : Prop where
  name : c'.name = c.name
  fitRules : c'.fitRules = none
  fitRulesBackup : c'.fitRulesBackup = c.fitRules
  levelBitmapBackup : c'.levelBitmapBackup = c.levelBitmap

theorem zlogCategoryUpdateRules_cases (rules : List RulePtr) (c : Category) (w : World) :
    ∃ ok c' w', zlogCategoryUpdateRules rules c w = some (ok, c', w')
      ∧ (w.Reliable → w'.Reliable)
      ∧ (ok = false ∧ c.Emptied c' ∧ ¬ w.Reliable ∨ ok = true ∧ c.Updated rules c') := by
  obtain ⟨ok, c', w', hobtain, hw', hkept, hcases⟩ := zlogCategoryObtainRules_cases rules
    { c with fitRulesBackup := c.fitRules, fitRules := none, levelBitmapBackup := c.levelBitmap } w
  refine ⟨ok, c', w', hobtain, hw', ?_⟩
  rcases hcases with ⟨rfl, hnone, hw⟩ | ⟨rfl, hhas⟩
  · exact .inl ⟨rfl, ⟨hkept.name, hnone, hkept.fitRulesBackup, hkept.levelBitmapBackup⟩, hw⟩
  · exact .inr ⟨rfl, hkept.name, hhas, hkept.fitRulesBackup, hkept.levelBitmapBackup⟩

/-- The category has these rules and no update is under way. -/
structure Category.Settled (ps : List RulePtr) (c : Category) : Prop where
  has : c.Has ps
  fitRulesBackup : c.fitRulesBackup = none

/-- A commit settles an update, whatever was there before. -/
theorem Category.Updated.commit {rules : List RulePtr} {c c' : Category}
    (h : c.Updated rules c') :
    (zlogCategoryCommitRules c').name = c.name
      ∧ (zlogCategoryCommitRules c').Settled (selectedPtrs c.name rules) := by
  unfold zlogCategoryCommitRules
  split
  · next hnone => exact ⟨h.name, h.has, Option.isNone_iff_eq_none.mp hnone⟩
  · exact ⟨h.name, ⟨h.has.fitRules, h.has.bitmap⟩, rfl⟩

theorem changeAll_eq (f : Category → Category) {as : List ℕ} (hnodup : as.Nodup) {heap : Heap}
    (hheap : ∀ a ∈ as, ∃ c, heap a = some c) :
    changeAll f as heap = some fun a => if a ∈ as then (heap a).map f else heap a := by
  induction as generalizing heap with
  | nil => simp [changeAll]
  | cons a as ih =>
      obtain ⟨ha, hnodup⟩ := List.nodup_cons.mp hnodup
      obtain ⟨⟨c, hc⟩, hheap⟩ := List.forall_mem_cons.mp hheap
      have hother : ∀ b ∈ as, Function.update heap a (some (f c)) b = heap b := fun b hb =>
        Function.update_of_ne (ne_of_mem_of_not_mem hb ha) _ _
      have hheap' : ∀ b ∈ as, ∃ d, Function.update heap a (some (f c)) b = some d := fun b hb =>
        (hother b hb).symm ▸ hheap b hb
      rw [changeAll, hc]
      simp only [Option.bind_eq_bind, Option.bind_some, ih hnodup hheap', Option.some.injEq]
      funext b
      by_cases hb : b ∈ as
      · simp [hb, hother b hb]
      · by_cases hba : b = a
        · subst hba
          simp [ha, hc]
        · simp [hb, hba]

/-- How far an update came: all categories have their new rules, or the first one without memory
    has none, and those behind it are as before. -/
def UpdatedUpTo (rules : List RulePtr) (heap heap' : Heap) (as : List ℕ) (ok : Bool) : Prop :=
  if ok then ∀ a ∈ as, ∃ c c', heap a = some c ∧ heap' a = some c' ∧ c.Updated rules c'
  else ∃ before a after, as = before ++ a :: after
    ∧ (∀ b ∈ before, ∃ c c', heap b = some c ∧ heap' b = some c' ∧ c.Updated rules c')
    ∧ (∃ c c', heap a = some c ∧ heap' a = some c' ∧ c.Emptied c')
    ∧ ∀ b ∈ after, heap' b = heap b

theorem updateAll_cases (rules : List RulePtr) {as : List ℕ} (hnodup : as.Nodup) {heap : Heap}
    (hheap : ∀ a ∈ as, ∃ c, heap a = some c) (w : World) :
    ∃ ok heap' w', updateAll rules as heap w = some (ok, heap', w') ∧ (w.Reliable → w'.Reliable)
      ∧ (w.Reliable → ok = true) ∧ (∀ a, a ∉ as → heap' a = heap a)
      ∧ UpdatedUpTo rules heap heap' as ok := by
  induction as generalizing heap w with
  | nil => exact ⟨true, heap, w, rfl, id, fun _ => rfl, fun _ _ => rfl, nofun⟩
  | cons a as ih =>
      obtain ⟨ha, hnodup⟩ := List.nodup_cons.mp hnodup
      obtain ⟨⟨c, hc⟩, hheap⟩ := List.forall_mem_cons.mp hheap
      obtain ⟨ok, c', w₁, hupdate, hw₁, hcases⟩ := zlogCategoryUpdateRules_cases rules c w
      have hother : ∀ b, b ≠ a → Function.update heap a (some c') b = heap b := fun b hb =>
        Function.update_of_ne hb _ _
      have hself : Function.update heap a (some c') a = some c' := Function.update_self ..
      have hne : ∀ {b}, b ∈ as → b ≠ a := fun hb => ne_of_mem_of_not_mem hb ha
      rcases hcases with ⟨rfl, hemptied, hw⟩ | ⟨rfl, hupdated⟩
      · refine ⟨false, Function.update heap a (some c'), w₁, by simp [updateAll, hc, hupdate], hw₁,
          fun h => absurd h hw, fun b hb => hother b fun h => hb (h ▸ List.mem_cons_self), ?_⟩
        exact ⟨[], a, as, rfl, nofun, ⟨c, c', hc, hself, hemptied⟩, fun b hb => hother b (hne hb)⟩
      · have hheap' : ∀ b ∈ as, ∃ d, Function.update heap a (some c') b = some d := fun b hb =>
          (hother b (hne hb)).symm ▸ hheap b hb
        obtain ⟨ok, heap', w', hall, hw', hok, hsame, hupto⟩ := ih hnodup hheap' w₁
        have hhead : heap' a = some c' := (hsame a ha).trans hself
        refine ⟨ok, heap', w', by simp [updateAll, hc, hupdate, hall], hw' ∘ hw₁, hok ∘ hw₁,
          fun b hb => ?_, ?_⟩
        · rw [List.mem_cons, not_or] at hb
          exact (hsame b hb.2).trans (hother b hb.1)
        · cases ok with
          | true =>
              refine List.forall_mem_cons.mpr ⟨⟨c, c', hc, hhead, hupdated⟩, fun b hb => ?_⟩
              obtain ⟨d, d', hd, h⟩ := hupto b hb
              exact ⟨d, d', (hother b (hne hb)).symm.trans hd, h⟩
          | false =>
              obtain ⟨before, e, after, rfl, hbefore, ⟨d, d', hd, h⟩, hafter⟩ := hupto
              refine ⟨a :: before, e, after, rfl, ?_, ⟨d, d', ?_, h⟩, fun b hb => ?_⟩
              · refine List.forall_mem_cons.mpr ⟨⟨c, c', hc, hhead, hupdated⟩, fun b hb => ?_⟩
                obtain ⟨d, d', hd, h⟩ := hbefore b hb
                exact ⟨d, d', (hother b (hne (by simp [hb]))).symm.trans hd, h⟩
              · exact (hother e (hne (by simp))).symm.trans hd
              · exact (hafter b hb).trans (hother b (hne (by simp [hb])))

/-! ## The table -/

/-- The table has the addresses below `next` of categories with these names. -/
structure Tabled (m : Finmap fun _ : Text => ℕ) (next : ℕ) (categories : Table) (heap : Heap) :
    Prop where
  represents : categories.Represents m
  named : ∀ name a, m.lookup name = some a → a < next ∧ ∃ c, heap a = some c ∧ c.name = name

section Tabled

variable {m : Finmap fun _ : Text => ℕ} {next : ℕ} {categories : Table} {heap : Heap}

/-- The loop over the table gets the addresses of the categories. -/
theorem Tabled.mem_values (h : Tabled m next categories heap) {a : ℕ} :
    a ∈ categories.entries.map Entry.value ↔ ∃ name, m.lookup name = some a := by
  simp only [h.represents.lookup_eq_some, List.mem_map]
  constructor
  · rintro ⟨p, hp, rfl⟩
    exact ⟨p.key, p, hp, rfl⟩
  · rintro ⟨name, p, hp, hbinding⟩
    exact ⟨p, hp, congrArg Sigma.snd hbinding⟩

theorem Tabled.heap_of_mem (h : Tabled m next categories heap) :
    ∀ a ∈ categories.entries.map Entry.value, ∃ c, heap a = some c := fun _ ha =>
  have ⟨name, hname⟩ := h.mem_values.mp ha
  have ⟨_, c, hc, _⟩ := h.named name _ hname
  ⟨c, hc⟩

/-- No address is in the table twice: the categories there have the names of their entries. -/
theorem Tabled.nodup (h : Tabled m next categories heap) :
    (categories.entries.map Entry.value).Nodup := by
  refine List.Nodup.of_map (fun a => (heap a).map Category.name) ?_
  have hkeys : (categories.entries.map Entry.value).map (fun a => (heap a).map Category.name)
      = (categories.entries.map Entry.key).map some := by
    rw [List.map_map, List.map_map]
    refine List.map_congr_left fun p hp => ?_
    have hlookup : m.lookup p.key = some p.value := h.represents.lookup_eq_some.mpr ⟨p, hp, rfl⟩
    obtain ⟨-, c, hc, hname⟩ := h.named p.key p.value hlookup
    simp [hc, hname]
  have hnodup : (categories.entries.map Entry.key).Nodup := by
    have hkeys := congrArg (Multiset.map Sigma.fst) h.represents.bindings
    rw [Multiset.map_coe, List.map_map] at hkeys
    have hm : (m.entries.map Sigma.fst).Nodup := m.nodupKeys.nodup_keys
    rw [← hkeys] at hm
    exact Multiset.coe_nodup.mp hm
  rw [hkeys]
  exact hnodup.map (Option.some_injective Text)

theorem Tabled.foreach (h : Tabled m next categories heap) :
    categories.zcHashtableForeach categories.nelem = some categories.entries :=
  zcHashtableForeach_eq h.represents (le_refl _)

theorem Tabled.succ (h : Tabled m next categories heap) : Tabled m (next + 1) categories heap where
  represents := h.represents
  named name a ha := have ⟨hlt, hc⟩ := h.named name a ha; ⟨Nat.lt_succ_of_lt hlt, hc⟩

/-- Categories that keep their names may change. -/
theorem Tabled.change (h : Tabled m next categories heap) {heap' : Heap}
    (hname : ∀ name a c, m.lookup name = some a → heap a = some c →
      ∃ c', heap' a = some c' ∧ c'.name = c.name) : Tabled m next categories heap' where
  represents := h.represents
  named name a ha := by
    obtain ⟨hlt, c, hc, rfl⟩ := h.named name a ha
    exact ⟨hlt, hname c.name a c ha hc⟩

/-- A loop that changes every category changes those of the table. -/
theorem Tabled.changeAll (h : Tabled m next categories heap) (f : Category → Category) :
    ∃ heap', changeAll f (categories.entries.map Entry.value) heap = some heap'
      ∧ ∀ name a c, m.lookup name = some a → heap a = some c → heap' a = some (f c) := by
  refine ⟨_, changeAll_eq f h.nodup h.heap_of_mem, fun name a c ha hc => ?_⟩
  rw [if_pos (h.mem_values.mpr ⟨name, ha⟩), hc]
  rfl

/-- What an update of the table can do. -/
theorem Tabled.update (h : Tabled m next categories heap) (newRules : List RulePtr) (w : World) :
    ∃ ok heap' w', zlogCategoryTableUpdateRules newRules categories heap w = some (ok, heap', w')
      ∧ (w.Reliable → w'.Reliable) ∧ (w.Reliable → ok = true)
      ∧ UpdatedUpTo newRules heap heap' (categories.entries.map Entry.value) ok := by
  obtain ⟨ok, heap', w', hall, hw', hok, -, hupto⟩ :=
    updateAll_cases newRules h.nodup h.heap_of_mem w
  refine ⟨ok, heap', w', ?_, hw', hok, hupto⟩
  unfold zlogCategoryTableUpdateRules
  rw [h.foreach]
  exact hall

/-- After an update every category has its name and knows what it was before, or it was not
    reached. -/
theorem UpdatedUpTo.backup {rules : List RulePtr} {heap' : Heap} {as : List ℕ} {ok : Bool}
    (h : UpdatedUpTo rules heap heap' as ok) {a : ℕ} (ha : a ∈ as) {c : Category}
    (hc : heap a = some c) :
    ∃ c', heap' a = some c' ∧ c'.name = c.name
      ∧ (c' = c ∨ c'.fitRulesBackup = c.fitRules ∧ c'.levelBitmapBackup = c.levelBitmap) := by
  have hupdated : ∀ {a}, heap a = some c →
      (∃ d d', heap a = some d ∧ heap' a = some d' ∧ d.Updated rules d') →
      ∃ c', heap' a = some c' ∧ c'.name = c.name
        ∧ (c' = c ∨ c'.fitRulesBackup = c.fitRules ∧ c'.levelBitmapBackup = c.levelBitmap) := by
    rintro a hc ⟨d, d', hd, hd', hupdated⟩
    obtain rfl := Option.some.inj (hc.symm.trans hd)
    exact ⟨d', hd', hupdated.name, .inr ⟨hupdated.fitRulesBackup, hupdated.levelBitmapBackup⟩⟩
  cases ok with
  | true => exact hupdated hc (h a ha)
  | false =>
      obtain ⟨before, b, after, rfl, hbefore, ⟨d, d', hd, hd', hemptied⟩, hafter⟩ := h
      rcases List.mem_append.mp ha with ha | ha
      · exact hupdated hc (hbefore a ha)
      rcases List.mem_cons.mp ha with rfl | ha
      · obtain rfl := Option.some.inj (hc.symm.trans hd)
        exact ⟨d', hd', hemptied.name, .inr ⟨hemptied.fitRulesBackup, hemptied.levelBitmapBackup⟩⟩
      · exact ⟨c, (hafter a ha).trans hc, rfl, .inl rfl⟩

end Tabled

end CLogTest.Zlog.Environment

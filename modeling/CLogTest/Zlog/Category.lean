import CLogTest.Zlog.Conf

set_option autoImplicit false

/-! # Categories (`src/zlog/category.c`)

A category has the rules that match its name and a bitmap, the union of the bitmaps of these rules.
`Category` carries the proof of that, so a level that the bitmap excludes is one that every rule of
the category would have dropped: the early return of `vzlog` loses nothing
(`zlogCategoryOutput_emits`). -/

namespace CLogTest.Zlog

/-- `zlog_category_t`. -/
structure Category where
  name : Text
  levelBitmap : Bitmap
  fitRules : List Rule
  bitmap_allows : ∀ lv, levelBitmap.allows lv = fitRules.any fun rule => rule.levelBitmap.allows lv

/-- A category of this name before any rule is added. -/
def Category.empty (name : Text) : Category where
  name := name
  levelBitmap := Bitmap.memset 0x00#8
  fitRules := []
  bitmap_allows := Bitmap.memset_zero_allows

/-- Add a rule and overlap its bitmap. -/
def Category.add (category : Category) (rule : Rule) : Category where
  name := category.name
  levelBitmap := category.levelBitmap.overlap rule.levelBitmap
  fitRules := category.fitRules ++ [rule]
  bitmap_allows lv := by
    rw [Bitmap.overlap_allows, category.bitmap_allows, List.any_append, List.any_cons, List.any_nil,
      Bool.or_false]

/-- The loop of `zlog_category_obtain_rules`: the category and the last wastebin rule. -/
def obtainRule (found : Category × Option Rule) (rule : Rule) : Category × Option Rule :=
  (if zlogRuleMatchCategory rule found.1.name then found.1.add rule else found.1,
    if zlogRuleIsWastebin rule then some rule else found.2)

/-- `zlog_category_obtain_rules`. -/
def zlogCategoryObtainRules (category : Category) (rules : List Rule) : Category :=
  let (category, wastebinRule) := rules.foldl obtainRule (category, none)
  if category.fitRules.length = 0 then
    match wastebinRule with
    | some rule => category.add rule
    | none => category
  else category

/-- `zlog_category_new`. -/
def zlogCategoryNew (name : Text) (rules : List Rule) : Option Category :=
  if maxlenPath < name.length then none
  else some (zlogCategoryObtainRules (Category.empty name) rules)

/-- `zlog_category_output`: the result of the last rule. -/
def zlogCategoryOutput (exts : Extensions) (category : Category) (lv : Fin 256)
    (marker text : String) (w : World) : ℤ × World :=
  category.fitRules.foldl (fun rc rule => zlogRuleOutput exts lv marker text rule rc.2) (0, w)

/-! ## Which rules fit -/

/-- The rules that a category of this name is to have: those that match, else the last wastebin
    rule. -/
def selectedRules (name : Text) (rules : List Rule) : List Rule :=
  let fit := rules.filter (zlogRuleMatchCategory · name)
  if fit = [] then ((rules.filter zlogRuleIsWastebin).getLast?).toList else fit

theorem foldl_obtainRule (category : Category) (wastebinRule : Option Rule) (rules : List Rule) :
    (rules.foldl obtainRule (category, wastebinRule)).1.name = category.name
      ∧ (rules.foldl obtainRule (category, wastebinRule)).1.fitRules
        = category.fitRules ++ rules.filter (zlogRuleMatchCategory · category.name)
      ∧ (rules.foldl obtainRule (category, wastebinRule)).2
        = ((rules.filter zlogRuleIsWastebin).getLast?).or wastebinRule := by
  induction rules generalizing category wastebinRule with
  | nil => simp
  | cons rule rest ih =>
      rw [List.foldl_cons, obtainRule]
      obtain ⟨hname, hfit, hwastebin⟩ := ih
        (if zlogRuleMatchCategory rule category.name then category.add rule else category)
        (if zlogRuleIsWastebin rule then some rule else wastebinRule)
      have hsame : (if zlogRuleMatchCategory rule category.name then category.add rule
          else category).name = category.name := by split <;> rfl
      refine ⟨hname.trans hsame, ?_, ?_⟩
      · rw [hfit, hsame]
        by_cases hmatch : zlogRuleMatchCategory rule category.name = true
        · simp [hmatch, Category.add]
        · simp [hmatch]
      · rw [hwastebin]
        by_cases hbin : zlogRuleIsWastebin rule = true
        · cases hrest : (rest.filter zlogRuleIsWastebin).getLast? with
          | none => simp [hbin, List.getLast?_cons, hrest]
          | some last => simp [hbin, List.getLast?_cons, hrest]
        · simp [hbin]

/-- **A category has the selected rules.** -/
theorem zlogCategoryNew_fitRules {name : Text} {rules : List Rule} {category : Category}
    (h : zlogCategoryNew name rules = some category) :
    category.name = name ∧ category.fitRules = selectedRules name rules := by
  unfold zlogCategoryNew at h
  split at h
  · exact absurd h (by simp)
  obtain rfl := Option.some.inj h
  obtain ⟨hname, hfit, hwastebin⟩ := foldl_obtainRule (Category.empty name) none rules
  have hstart : (Category.empty name).name = name ∧ (Category.empty name).fitRules = [] :=
    ⟨rfl, rfl⟩
  rw [hstart.1] at hname hfit
  rw [hstart.2, List.nil_append] at hfit
  rw [Option.or_none] at hwastebin
  unfold zlogCategoryObtainRules selectedRules
  dsimp only
  rw [← hfit, ← hwastebin]
  by_cases hnone : (rules.foldl obtainRule (Category.empty name, none)).1.fitRules = []
  · rw [if_pos (List.length_eq_zero_iff.mpr hnone), if_pos hnone]
    cases hbin : (rules.foldl obtainRule (Category.empty name, none)).2 with
    | none => exact ⟨hname, hnone⟩
    | some rule => exact ⟨hname, by simp [Category.add, hnone]⟩
  · rw [if_neg (mt List.length_eq_zero_iff.mp hnone), if_neg hnone]
    exact ⟨hname, rfl⟩

/-! ## What a category writes -/

/-- One message for every rule that admits the level. -/
def categoryMessages (category : Category) (lv : Fin 256) (text : String) : List String :=
  category.fitRules.flatMap fun rule => if rule.levelBitmap.allows lv then [text] else []

/-- **A category writes one message for every rule that admits the level.** -/
theorem zlogCategoryOutput_emits (exts : Extensions) {category : Category}
    (hplain : ∀ rule ∈ category.fitRules, rule.Plain) (lv : Fin 256) (marker text : String) :
    Emits World.Reliable World.payloads
      (fun w => (zlogCategoryOutput exts category lv marker text w).2)
      (categoryMessages category lv text) := by
  unfold zlogCategoryOutput categoryMessages
  generalize category.fitRules = rules at hplain
  generalize (0 : ℤ) = rc
  induction rules generalizing rc with
  | nil => exact Emits.refl _ _
  | cons rule rest ih =>
      have hrule := zlogRuleOutput_emits exts lv marker text (hplain rule (List.mem_cons_self ..))
      have hrest := fun rc => ih (fun rule h => hplain rule (List.mem_cons_of_mem _ h)) rc
      rw [List.flatMap_cons]
      constructor
      · intro w hw
        exact (hrest _).inv _ (hrule.inv w hw)
      · intro w hw
        rw [List.foldl_cons, ← List.append_assoc, ← hrule.trace_eq w hw]
        exact (hrest _).trace_eq _ (hrule.inv w hw)

/-- A level that the bitmap of the category excludes is one that no rule admits. -/
theorem categoryMessages_of_needless {category : Category} {lv : Fin 256} (text : String)
    (h : category.levelBitmap.allows lv = false) : categoryMessages category lv text = [] := by
  rw [category.bitmap_allows, List.any_eq_false] at h
  unfold categoryMessages
  rw [List.flatMap_eq_nil_iff]
  intro rule hrule
  rw [if_neg (h rule hrule)]

end CLogTest.Zlog

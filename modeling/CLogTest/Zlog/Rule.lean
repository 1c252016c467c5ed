import CLogTest.Recursion.Emits
import CLogTest.Zlog.Level

set_option autoImplicit false

/-! # Rules (`src/zlog/rule.c`)

A rule selects messages by category and level, and says where they go. The selection by level is
stored twice: as a comparison with a level, evaluated on output, and as a bitmap of all levels,
which lets a category skip a message early. `Rule` carries the proof that the two agree
(`levelBitmap_allows`), also for the level -1 of an unknown name, where the shifts of the C code
run one bit past the byte. -/

namespace CLogTest.Zlog

/-! ## Level bitmaps -/

/-- `level_bitmap`: the bit of level `lv` is bit `7 - lv % 8` of the byte `lv / 8`. -/
abbrev Bitmap := Fin 32 → BitVec 8

namespace Bitmap

/-- `memset` of the whole bitmap. -/
def memset (c : BitVec 8) : Bitmap := fun _ => c

/-- `memset` from a byte on. -/
def memsetFrom (b : Bitmap) (i : ℕ) (c : BitVec 8) : Bitmap := fun j => if i ≤ j.val then c else b j

/-- Assignment to a byte. -/
def modify (b : Bitmap) (i : ℕ) (f : BitVec 8 → BitVec 8) : Bitmap :=
  fun j => if j.val = i then f (b j) else b j

/-- Is a bit of a byte set, counted from the most significant one? -/
def byteAllows (x : BitVec 8) (k : ℕ) : Bool := (x >>> (7 - k)) &&& 1#8 = 1#8

/-- The negated condition of `zlog_category_needless_level`. -/
def allows (b : Bitmap) (lv : Fin 256) : Bool :=
  byteAllows (b ⟨lv / 8, by omega⟩) (lv % 8)

/-- The loop of `zlog_cateogry_overlap_bitmap`. -/
def overlap (b b' : Bitmap) : Bitmap := fun j => b j ||| b' j

theorem byteAllows_eq_getLsbD (x : BitVec 8) (k : ℕ) : byteAllows x k = x.getLsbD (7 - k) := by
  have hbit : ∀ y : BitVec 8, decide (y &&& 1#8 = 1#8) = y.getLsbD 0 := by decide
  unfold byteAllows
  rw [hbit, BitVec.getLsbD_ushiftRight, Nat.add_zero]

theorem overlap_allows (b b' : Bitmap) (lv : Fin 256) :
    (b.overlap b').allows lv = (b.allows lv || b'.allows lv) := by
  unfold allows overlap
  rw [byteAllows_eq_getLsbD, byteAllows_eq_getLsbD, byteAllows_eq_getLsbD, BitVec.getLsbD_or]

theorem memset_zero_allows (lv : Fin 256) : (memset 0x00#8).allows lv = false := by
  unfold allows memset
  rw [byteAllows_eq_getLsbD]
  simp

end Bitmap

/-- `compare_char`. -/
inductive CompareChar
  | all
  | atLeast
  | equal
  | unequal

/-- The comparison of `zlog_rule_output`. -/
def CompareChar.admits : CompareChar → ℤ → Fin 256 → Bool
  | all, _, _ => true
  | atLeast, level, lv => decide (level ≤ lv)
  | equal, level, lv => decide ((lv : ℤ) = level)
  | unequal, level, lv => decide ((lv : ℤ) ≠ level)

/-- A 32-bit `int` as it is stored in a byte. -/
def toByte (x : BitVec 32) : BitVec 8 := x.setWidth 8

/-- The bitmap that `zlog_rule_new` builds; `/` and `%` round towards zero. -/
def levelBitmap (compareChar : CompareChar) (level : ℤ) : Bitmap :=
  let i := (level.tdiv 8).toNat
  let r := level.tmod 8
  match compareChar with
  | .equal => (Bitmap.memset 0x00#8).modify i fun x => x ||| toByte (1#32 <<< (7 - r).toNat)
  | .unequal => (Bitmap.memset 0xff#8).modify i fun x => x &&& toByte (~~~(1#32 <<< (7 - r).toNat))
  | .all => Bitmap.memset 0xff#8
  | .atLeast =>
      ((Bitmap.memset 0x00#8).modify i
        fun x => x ||| toByte (~~~(0xff#32 <<< (8 - r).toNat))).memsetFrom (i + 1) 0xff#8

/-- The byte that holds the level, for the remainders -1, …, 7. -/
theorem levelByte_allows (r : Fin 9) (k : Fin 8) :
    Bitmap.byteAllows (0x00#8 ||| toByte (~~~(0xff#32 <<< (9 - r.val)))) k
        = decide (r.val ≤ k.val + 1)
      ∧ Bitmap.byteAllows (0x00#8 ||| toByte (1#32 <<< (8 - r.val))) k
        = decide (k.val + 1 = r.val)
      ∧ Bitmap.byteAllows (0xff#8 &&& toByte (~~~(1#32 <<< (8 - r.val)))) k
        = decide (k.val + 1 ≠ r.val) := by
  revert r k
  decide

theorem ones_allows (k : Fin 8) : Bitmap.byteAllows 0xff#8 k = true := by
  revert k
  decide

theorem zero_allows (k : Fin 8) : Bitmap.byteAllows 0x00#8 k = false := by
  revert k
  decide

/-- The byte and the remainder of a level. The remainder of the level -1 is -1, in the first
    byte. -/
theorem level_div_mod {level : ℤ} (h : -1 ≤ level ∧ level ≤ 255) :
    level = 8 * (level.tdiv 8).toNat + level.tmod 8 ∧ -1 ≤ level.tmod 8 ∧ level.tmod 8 ≤ 7
      ∧ (level.tmod 8 = -1 → (level.tdiv 8).toNat = 0) := by
  rcases (by omega : level = -1 ∨ 0 ≤ level) with rfl | hpos
  · decide
  · rw [Int.tdiv_eq_ediv_of_nonneg hpos, Int.tmod_eq_emod_of_nonneg hpos]
    omega

/-- **The bitmap of a rule is its comparison**, for every level that a rule can have. -/
theorem levelBitmap_allows (compareChar : CompareChar) {level : ℤ} (h : -1 ≤ level ∧ level ≤ 255)
    (lv : Fin 256) : (levelBitmap compareChar level).allows lv = compareChar.admits level lv := by
  obtain ⟨hlevel, hlow, hhigh, hfirst⟩ := level_div_mod h
  unfold levelBitmap Bitmap.allows CompareChar.admits
  generalize (level.tdiv 8).toNat = i at hlevel hfirst ⊢
  generalize level.tmod 8 = r at hlevel hlow hhigh hfirst ⊢
  -- the facts about bytes are stated for the remainder plus one
  obtain ⟨r', hr'⟩ : ∃ r' : Fin 9, (r'.val : ℤ) = r + 1 :=
    ⟨⟨(r + 1).toNat, by omega⟩, Int.toNat_of_nonneg (by omega)⟩
  have hshift : (8 - r).toNat = 9 - r'.val ∧ (7 - r).toNat = 8 - r'.val := by omega
  have hk : lv.val % 8 < 8 := Nat.mod_lt _ (by decide)
  obtain ⟨hAtLeast, hEqual, hUnequal⟩ := levelByte_allows r' ⟨lv.val % 8, hk⟩
  have hones := ones_allows ⟨lv.val % 8, hk⟩
  have hzero := zero_allows ⟨lv.val % 8, hk⟩
  cases compareChar with
  | all => exact hones
  | atLeast =>
      simp only [Bitmap.memsetFrom, Bitmap.modify, Bitmap.memset, hshift.1]
      rcases lt_trichotomy (lv.val / 8) i with hlt | heq | hgt
      · rw [if_neg (by omega), if_neg (by omega)]
        exact hzero.trans (decide_eq_false (by omega)).symm
      · rw [if_neg (by omega), if_pos heq]
        exact hAtLeast.trans (decide_eq_decide.mpr (by simp only; omega))
      · rw [if_pos (by omega)]
        exact hones.trans (decide_eq_true (by omega)).symm
  | equal =>
      simp only [Bitmap.modify, Bitmap.memset, hshift.2]
      by_cases heq : lv.val / 8 = i
      · rw [if_pos heq]
        exact hEqual.trans (decide_eq_decide.mpr (by simp only; omega))
      · rw [if_neg heq]
        exact hzero.trans (decide_eq_false (by omega)).symm
  | unequal =>
      simp only [Bitmap.modify, Bitmap.memset, hshift.2]
      by_cases heq : lv.val / 8 = i
      · rw [if_pos heq]
        exact hUnequal.trans (decide_eq_decide.mpr (by simp only; omega))
      · rw [if_neg heq]
        exact hones.trans (decide_eq_true (by omega)).symm

/-! ## Rules -/

/-- Where a rule sends its messages. Actions that need more than a plain file or stream (a path with
    conversion specifications, an archive, a pipe, the system log, a record function) are kept as
    text. -/
inductive Output
  | staticFile (path : Text)
  | stdout
  | stderr
  | other (action : Text)

/-- `zlog_rule_t`. `format` is the name of a format, or none for the default one. -/
structure Rule where
  category : Text
  compareChar : CompareChar
  level : ℤ
  levelBitmap : Bitmap
  format : Option Text
  output : Output
  bitmap_allows : ∀ lv, levelBitmap.allows lv = compareChar.admits level lv

/-- What this model leaves open of zlog: formats with a name, and the outputs kept as text. -/
structure Extensions where
  /-- `zlog_format_new` on a line of the configuration: the name of the format. -/
  formatNew : Text → Option Text
  /-- `zlog_format_gen_msg` by a named format. -/
  formatGenMsg : Text → String → Option String
  /-- Can `zlog_rule_new` set up this output? -/
  accepts : Text → Bool
  /-- The output function of such a rule, on level name and message. -/
  emit : Text → String → String → World → ℤ × World
  /-- Is `ZLOG_STRICT_INIT` in the environment? -/
  strictInit : Bool

/-- None of these features: every use of one fails. -/
def Extensions.without : Extensions where
  formatNew _ := none
  formatGenMsg _ _ := none
  accepts _ := false
  emit _ _ _ w := (-1, w)
  strictInit := false

/-- The characters of a category. -/
def isCategoryChar (c : Char) : Bool :=
  c.isAlphanum || c = '_' || c = '-' || c = '*' || c = '!'

/-- The comparison and the name of the level in the second half of a selector. -/
def scanLevel : Text → CompareChar × Text
  | '=' :: name => (.equal, name)
  | '!' :: name => (.unequal, name)
  | '*' :: name => (.all, '*' :: name)
  | name => (.atLeast, name)

/-- The text between a quote and the last quote after it: the first half of
    `zlog_rule_parse_path`. -/
def quotedPath (s : Text) : Option Text :=
  match s.reverse.dropWhile (· ≠ '"') with
  | [] => none
  | _ :: path => if maxlenPath < path.length then none else some path.reverse

/-- The output of an action, by the first character of its file path. -/
def ruleOutput (exts : Extensions) (action filePath : Text) : Option Output :=
  let other := if exts.accepts action then some (Output.other action) else none
  let file (path : Text) : Option Output := do
    let path ← quotedPath path
    if path.contains '%' || action.contains ',' then other else some (.staticFile path)
  match filePath with
  | '-' :: '"' :: path => file path
  | '"' :: path => file path
  | '|' :: _ => other
  | '$' :: _ => other
  | '>' :: stream =>
      if stream.take 6 = "syslog".toList then other
      else if stream.take 6 = "stdout".toList then some .stdout
      else if stream.take 6 = "stderr".toList then some .stderr
      else none
  | _ => none

/-- `zlog_rule_new` up to opening the file, on a line such as `0.debug "logs/zlog.txt"`. -/
def zlogRuleParse (exts : Extensions) (levels : Levels) (defaultFormat : Option Text)
    (formats : List Text) (line : Text) : Option Rule := do
  -- "%s %n" and " %[^.].%s"
  let (selector, rest) ← scanWord line
  let action := skipSpace rest
  let (category, rest) ← scanUntil ['.'] (skipSpace selector)
  let (level, _) ← (scanChar '.' rest).bind scanWord
  if ¬ category.all isCategoryChar then none
  else
    let (compareChar, name) := scanLevel level
    -- " %[^;];%s" and " %[^,],"
    let (output, rest) ← scanUntil [';'] (skipSpace action)
    let format := ((scanChar ';' rest).bind scanWord).map Prod.fst
    if format.any fun name => ¬ formats.contains name then none
    else
      let (filePath, _) ← scanUntil [','] (skipSpace output)
      let output ← ruleOutput exts output filePath
      let number := zlogLevelListAtoi levels name
      some
        { category := category
          compareChar := compareChar
          level := number
          levelBitmap := Zlog.levelBitmap compareChar number
          format := format.orElse fun _ => defaultFormat
          output := output
          bitmap_allows := levelBitmap_allows compareChar (zlogLevelListAtoi_bound levels name) }

/-- The end of `zlog_rule_new`: a static file is opened and its status read. -/
def zlogRuleOpen (rule : Rule) (w : World) : Bool × World :=
  match rule.output with
  | .staticFile _ =>
      let (opened, w) := w.attempt
      if opened then w.attempt else (false, w)
  | _ => (true, w)

/-- `zlog_rule_match_category`. -/
def zlogRuleMatchCategory (rule : Rule) (category : Text) : Bool :=
  if rule.category = ['*'] then true
  else if rule.category = category then true
  else if rule.category.getLast? = some '_' then
    -- `aa_` matches `aa_xx` and `aa`
    let len :=
      if category.length = rule.category.length - 1 then rule.category.length - 1
      else rule.category.length
    rule.category.take len = category.take len
  else false

/-- `zlog_rule_is_wastebin`. -/
def zlogRuleIsWastebin (rule : Rule) : Bool := rule.category = ['!']

/-! ## Output -/

/-- `ENOENT`. -/
def enoent : ℕ := 2

/-- `write` of a message: 0, or -1 when it fails. -/
def writeMessage (msg : Message) (w : World) : ℤ × World :=
  match w.printMessage msg with
  | (some _, w) => (0, w)
  | (none, w) => (-1, w)

/-- `zlog_rule_output_static_file_single`. The environment answers `stat`, then with the error
    number or with whether the file is another one by now (any number but 0). -/
def outputStaticFileSingle (path : String) (marker text : String) (w : World) : ℤ × World :=
  let (found, w) := w.attempt
  let (answer, w) := w.ask
  if found = false ∧ answer ≠ enoent then (-1, w)
  else if found = false ∨ answer ≠ 0 then
    let (opened, w) := w.attempt
    if opened = false then (-1, w)
    else if found = false then
      let (found, w) := w.attempt
      if found = false then (-1, w) else writeMessage ⟨path, marker, text⟩ w
    else writeMessage ⟨path, marker, text⟩ w
  else writeMessage ⟨path, marker, text⟩ w

/-- `zlog_format_gen_msg`. The default format contains the message as it is. -/
def zlogFormatGenMsg (exts : Extensions) (format : Option Text) (text : String) : Option String :=
  match format with
  | none => some text
  | some name => exts.formatGenMsg name text

/-- `zlog_rule_output`; `marker` is the name of the level. -/
def zlogRuleOutput (exts : Extensions) (lv : Fin 256) (marker text : String) (rule : Rule)
    (w : World) : ℤ × World :=
  if rule.compareChar.admits rule.level lv = false then (0, w)
  else
    match zlogFormatGenMsg exts rule.format text with
    | none => (-1, w)
    | some text =>
        match rule.output with
        | .staticFile path => outputStaticFileSingle (String.ofList path) marker text w
        | .stdout => writeMessage ⟨"stdout", marker, text⟩ w
        | .stderr => writeMessage ⟨"stderr", marker, text⟩ w
        | .other action => exts.emit action marker text w

/-! ## What a rule writes -/

/-- A rule that this model covers: the default format, and a plain file or stream. -/
def Rule.Plain (rule : Rule) : Prop :=
  rule.format = none ∧ ∀ action, rule.output ≠ .other action

theorem writeMessage_emits (msg : Message) :
    Emits World.Reliable World.payloads (fun w => (writeMessage msg w).2) [msg.payload] := by
  refine .of_forall fun w hw => ?_
  have hworld : (writeMessage msg w).2 = (w.printMessage msg).2 := by
    unfold writeMessage
    split <;> next heq => rw [heq]
  rw [hworld]
  exact (World.printMessage_of_reliable msg hw).2

/-- A message reaches its file, whether or not the file was opened anew. -/
theorem outputStaticFileSingle_emits (path marker text : String) :
    Emits World.Reliable World.payloads (fun w => (outputStaticFileSingle path marker text w).2)
      [text] := by
  refine .of_forall fun w hw => ?_
  have hstat := World.attempt_of_reliable hw
  have hasked : w.Silent w.attempt.2.ask.2 := w.attempt_silent.trans (World.ask_silent _)
  have hopen := World.attempt_of_reliable (hasked.reliable hw)
  have hwrite : ∃ w', w.Silent w' ∧
      (outputStaticFileSingle path marker text w).2 = (writeMessage ⟨path, marker, text⟩ w').2 := by
    unfold outputStaticFileSingle
    simp only [hstat, Bool.true_eq_false, false_and, if_false, false_or, hopen]
    split
    · exact ⟨_, hasked.trans (World.attempt_silent _), rfl⟩
    · exact ⟨_, hasked, rfl⟩
  obtain ⟨w', hsilent, heq⟩ := hwrite
  have hemits := writeMessage_emits ⟨path, marker, text⟩
  have hw' := hsilent.reliable hw
  rw [heq, hemits.trace_eq w' hw', hsilent.payloads]
  exact ⟨hemits.inv w' hw', rfl⟩

/-- **A rule writes the messages that its comparison admits.** -/
theorem zlogRuleOutput_emits (exts : Extensions) (lv : Fin 256) (marker text : String) {rule : Rule}
    (hplain : rule.Plain) :
    Emits World.Reliable World.payloads (fun w => (zlogRuleOutput exts lv marker text rule w).2)
      (if rule.levelBitmap.allows lv then [text] else []) := by
  rw [rule.bitmap_allows]
  unfold zlogRuleOutput zlogFormatGenMsg
  rw [hplain.1]
  by_cases hadmits : rule.compareChar.admits rule.level lv = true
  · simp only [hadmits, Bool.true_eq_false, if_false, if_true]
    cases hout : rule.output with
    | staticFile path => exact outputStaticFileSingle_emits _ marker text
    | stdout => exact writeMessage_emits _
    | stderr => exact writeMessage_emits _
    | other action => exact absurd hout (hplain.2 action)
  · simp only [Bool.not_eq_true] at hadmits
    simp only [hadmits, if_true, Bool.false_eq_true, if_false]
    exact Emits.refl _ _

end CLogTest.Zlog

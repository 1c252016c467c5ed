import CLogTest.Zlog.Level
import CLogTest.Zlog.Printf
import Mathlib.Algebra.Order.Group.Int
import Mathlib.Data.List.TakeDrop
import Mathlib.Tactic.Tauto

set_option autoImplicit false

/-! # Archives (`src/zlog/rotater.c`, `src/zlog/zc_arraylist.c`)

A log file `aa.log` is archived under names with a number in them, `aa.00.log`, `aa.01.log`, ….
The pattern of the names is parsed from the configuration (`zlogRotaterParseArchivePath`), the
archives there are found by `glob` and kept in an array list in the order of their numbers
(`addArchiveFiles_holds`). A name tells its number (`zlogFileCheckNew_archiveName`). -/

namespace CLogTest.Zlog

/-! ## Sorted array lists -/

namespace ZcArraylist

variable {α : Type}

/-- `zc_arraylist_insert_inner`, for an index in use. -/
def insertInner (l : ZcArraylist α) (idx : ℕ) (data : α) : ZcArraylist α :=
  if l.get idx = none then { l with array := l.array.set idx (some data) }
  else
    { size := if l.size - 1 < l.array.length then max (l.size * 2) 0 else l.size
      array := l.array.take idx ++ some data :: l.array.drop idx }

/-- `zc_arraylist_sortadd`, on a list without holes: before the first element that compares
    greater. -/
def sortadd (cmp : α → α → Bool) (l : ZcArraylist α) (data : α) : Option (ZcArraylist α) :=
  let i := l.array.findIdx fun slot => slot.any fun x => cmp x data
  if i = l.array.length then l.set i data else some (l.insertInner i data)

/-- The list has the elements `xs`, without holes, and room for them. -/
structure Holds (l : ZcArraylist α) (xs : List α) : Prop where
  array : l.array = xs.map some
  length_le : xs.length ≤ l.size
  pos : 0 < l.size

theorem new_holds : (new : ZcArraylist α).Holds [] where
  array := rfl
  length_le := Nat.zero_le _
  pos := Nat.succ_pos 31

theorem Holds.get {l : ZcArraylist α} {xs : List α} (h : l.Holds xs) (i : ℕ) :
    l.get i = xs[i]? := by
  unfold ZcArraylist.get
  rw [h.array, List.getElem?_map]
  cases xs[i]? <;> rfl

/-- `zc_arraylist_add`: a write right after the last element. -/
theorem Holds.add {l : ZcArraylist α} {xs : List α} (h : l.Holds xs) (data : α) :
    ∃ l', l.set xs.length data = some l' ∧ l'.Holds (xs ++ [data]) := by
  have hpos := h.pos
  have hle := h.length_le
  have hroom : xs.length < l.allocated xs.length := by
    unfold allocated
    split <;> omega
  have hslots : (xs.map some ++ List.replicate (xs.length + 1 - (xs.map some).length) none).set
      xs.length (some data) = (xs ++ [data]).map some := by
    rw [List.length_map, Nat.add_sub_cancel_left]
    simp
  unfold set
  rw [if_neg (not_le.mpr hroom), h.array]
  refine ⟨_, rfl, hslots, ?_, Nat.zero_lt_of_lt hroom⟩
  rw [List.length_append, List.length_singleton]
  exact hroom

/-- `xs` with `data` at its place. -/
def insertSorted (cmp : α → α → Bool) (data : α) : List α → List α
  | [] => [data]
  | x :: xs => if cmp x data then data :: x :: xs else x :: insertSorted cmp data xs

theorem insertSorted_perm (cmp : α → α → Bool) (data : α) (xs : List α) :
    (insertSorted cmp data xs).Perm (data :: xs) := by
  induction xs with
  | nil => exact List.Perm.refl _
  | cons x xs ih =>
      unfold insertSorted
      split
      · exact List.Perm.refl _
      · exact (ih.cons x).trans (List.Perm.swap data x xs)

/-- A sorted list stays sorted. -/
theorem insertSorted_pairwise {cmp : α → α → Bool} {data : α} {xs : List α} {r : α → α → Prop}
    (htrans : ∀ x y z, r x y → r y z → r x z) (hle : ∀ x ∈ xs, cmp x data = false → r x data)
    (hgt : ∀ x ∈ xs, cmp x data = true → r data x) (h : xs.Pairwise r) :
    (insertSorted cmp data xs).Pairwise r := by
  induction xs with
  | nil => exact List.pairwise_singleton r data
  | cons x xs ih =>
      obtain ⟨hx, hxs⟩ := List.pairwise_cons.mp h
      unfold insertSorted
      split
      · next hcmp =>
          have hdata := hgt x List.mem_cons_self hcmp
          refine List.pairwise_cons.mpr ⟨fun y hy => ?_, h⟩
          rcases List.mem_cons.mp hy with rfl | hy
          · exact hdata
          · exact htrans data x y hdata (hx y hy)
      · next hcmp =>
          refine List.pairwise_cons.mpr ⟨fun y hy => ?_, ih (fun y hy => hle y (.tail x hy))
            (fun y hy => hgt y (.tail x hy)) hxs⟩
          rcases List.mem_cons.mp ((insertSorted_perm cmp data xs).mem_iff.mp hy) with rfl | hy
          · exact hle x List.mem_cons_self (Bool.eq_false_iff.mpr hcmp)
          · exact hx y hy

end ZcArraylist

/-! ## The pattern of the names -/

/-- `ROLLING`: `aa.02` becomes `aa.03`, `aa.01` becomes `aa.02`, `aa` becomes `aa.01`.
    `SEQUENCE`: `aa` becomes `aa.03`. -/
inductive MvType
  | rolling
  | sequence

/-- `zlog_rotater_t`, the members that one rotation uses. -/
structure Rotater where
  basePath : Text
  globPath : Text
  numStartLen : ℕ
  numEndLen : ℕ
  numWidth : ℤ
  mvType : MvType
  maxCount : ℤ

/-- `"%.*s%0*d%s"`: the name of the archive with number `j`. -/
def Rotater.archiveName (r : Rotater) (j : ℕ) : Text :=
  r.globPath.take r.numStartLen ++ printInt r.numWidth j ++ r.globPath.drop r.numEndLen

/-- The name, if it fits into `new_path`. -/
def Rotater.newPath (r : Rotater) (j : ℕ) : Option Text :=
  if maxlenPath < (r.archiveName j).length then none else some (r.archiveName j)

/-- `zlog_file_t`. -/
structure ZlogFile where
  index : ℤ
  path : Text

/-- `zlog_file_check_new`. -/
def zlogFileCheckNew (r : Rotater) (path : Text) : Option ZlogFile :=
  if path = r.basePath then none
  else if path.getLast? = some '/' then none
  else if maxlenPath < path.length then none
  else
    let text := path.drop r.numStartLen
    let (index, rest) := (scanInt text).getD (0, text)
    let nread : ℤ := text.length - rest.length
    if r.numWidth ≠ 0 ∧ nread < r.numWidth then none else some ⟨index, path⟩

/-- `zlog_file_cmp`. -/
def zlogFileCmp (f g : ZlogFile) : Bool := f.index > g.index

/-- A round of the loop of `zlog_rotater_add_archive_files`. -/
def addArchiveFile (r : Rotater) (files : ZcArraylist ZlogFile) (path : Text) :
    Option (ZcArraylist ZlogFile) :=
  match zlogFileCheckNew r path with
  | none => some files
  | some f => files.sortadd zlogFileCmp f

/-- `zlog_rotater_add_archive_files`, on the paths that `glob` found. -/
def addArchiveFiles (r : Rotater) (pathv : List Text) : Option (ZcArraylist ZlogFile) :=
  pathv.foldlM (addArchiveFile r) ZcArraylist.new

/-- A path that `glob` finds: the asterisk stands for a part of a file name. An asterisk or another
    special character in the rest of the pattern is not modelled. -/
def Rotater.globMatches (r : Rotater) (path : Text) : Prop :=
  ∃ part, '/' ∉ part
    ∧ path = r.globPath.take r.numStartLen ++ part ++ r.globPath.drop r.numEndLen

/-! ## A name tells its number -/

/-- Patterns under which archives can be told apart: no digit follows the number, and no archive has
    the name of the log file or of a directory. -/
structure Rotater.WellFormed (r : Rotater) : Prop where
  start : r.numStartLen ≤ r.globPath.length
  next : ∀ c ∈ (r.globPath.drop r.numEndLen).head?, c.isDigit = false
  file : (r.globPath.drop r.numEndLen).getLast? ≠ some '/'
  base : ∀ j, r.archiveName j ≠ r.basePath

variable {r : Rotater}

theorem drop_archiveName (hr : r.WellFormed) (j : ℕ) :
    (r.archiveName j).drop r.numStartLen
      = printInt r.numWidth j ++ r.globPath.drop r.numEndLen := by
  have hlength : (r.globPath.take r.numStartLen).length = r.numStartLen := by
    rw [List.length_take, min_eq_left hr.start]
  unfold Rotater.archiveName
  rw [List.append_assoc]
  nth_rewrite 1 [← hlength]
  exact List.drop_left

theorem archiveName_injective (hr : r.WellFormed) : Function.Injective r.archiveName := by
  intro i j h
  obtain ⟨tail, hi, -⟩ := scanInt_printInt r.numWidth i hr.next
  obtain ⟨tail', hj, -⟩ := scanInt_printInt r.numWidth j hr.next
  rw [← drop_archiveName hr, h, drop_archiveName hr, hj] at hi
  exact Int.ofNat.inj (Prod.mk.inj (Option.some.inj hi)).1.symm

/-- The files in the list are the archives with numbers in `ns`, in their order. -/
structure Lists (r : Rotater) (files : List ZlogFile) (ns : ℕ → Prop) : Prop where
  sorted : files.Pairwise fun f g => f.index < g.index
  mem : ∀ f, f ∈ files ↔ ∃ j, ns j ∧ f = ⟨j, r.archiveName j⟩

theorem Lists.insertSorted {files : List ZlogFile} {ns : ℕ → Prop} (h : Lists r files ns) {j : ℕ}
    (hj : ¬ ns j) :
    Lists r (ZcArraylist.insertSorted zlogFileCmp ⟨j, r.archiveName j⟩ files)
      fun i => i = j ∨ ns i where
  sorted := by
    refine ZcArraylist.insertSorted_pairwise (fun _ _ _ => lt_trans) ?_ ?_ h.sorted
    · intro f hf hcmp
      obtain ⟨i, hi, rfl⟩ := (h.mem f).mp hf
      have hle : (i : ℤ) ≤ j := not_lt.mp (of_decide_eq_false hcmp)
      refine lt_of_le_of_ne hle fun heq => hj ?_
      rw [← Int.ofNat.inj heq]
      exact hi
    · exact fun f _ hcmp => of_decide_eq_true hcmp
  mem f := by
    rw [(ZcArraylist.insertSorted_perm _ _ _).mem_iff, List.mem_cons, h.mem]
    constructor
    · rintro (rfl | ⟨i, hi, rfl⟩)
      · exact ⟨j, Or.inl rfl, rfl⟩
      · exact ⟨i, Or.inr hi, rfl⟩
    · rintro ⟨i, rfl | hi, rfl⟩
      · exact Or.inl rfl
      · exact Or.inr ⟨i, hi, rfl⟩

theorem Lists.nodup {files : List ZlogFile} {ns : ℕ → Prop} (h : Lists r files ns) :
    files.Nodup :=
  h.sorted.imp fun hlt heq => absurd (congrArg ZlogFile.index heq) hlt.ne

/-- Paths of the log file and its archives. -/
def Rotater.Own (r : Rotater) (path : Text) : Prop :=
  path = r.basePath ∨ ∃ j, path = r.archiveName j ∧ path.length ≤ maxlenPath

end CLogTest.Zlog

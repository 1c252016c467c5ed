import Mathlib.Data.Finmap
import Mathlib.Tactic.Abel

set_option autoImplicit false

/-! # Chains and finite maps

The elements of a hash table are in chains, each in the one that its index says. Replacing one chain
changes the elements of the table by those of the chain (`coe_set_add`), and an element is looked
for in its own chain only (`Placed.mem_flatten`). Together with what an insertion and an erasure do
to the entries of a `Finmap`, this is what a table of chains needs to be a finite map. -/

namespace Chains

variable {α : Type*}

/-- Every element is in the chain that has its index. -/
def Placed (index : α → ℕ) (chains : List (List α)) : Prop :=
  ∀ i chain, chains[i]? = some chain → ∀ a ∈ chain, index a = i

variable {index : α → ℕ} {chains : List (List α)} {i : ℕ} {chain : List α}

theorem placed_replicate (index : α → ℕ) (n : ℕ) : Placed index (List.replicate n []) := by
  intro i chain hchain a ha
  rw [(List.mem_replicate.mp (List.mem_of_getElem? hchain)).2] at ha
  exact absurd ha List.not_mem_nil

/-- An element is looked for in its own chain. -/
theorem Placed.mem_flatten (h : Placed index chains) {a : α}
    (hchain : chains[index a]? = some chain) : a ∈ chains.flatten ↔ a ∈ chain := by
  rw [List.mem_flatten]
  constructor
  · rintro ⟨other, hother, ha⟩
    obtain ⟨j, hj⟩ := List.getElem?_of_mem hother
    obtain rfl := h j other hj a ha
    obtain rfl := Option.some.inj (hj.symm.trans hchain)
    exact ha
  · exact fun ha => ⟨chain, List.mem_of_getElem? hchain, ha⟩

theorem Placed.set (h : Placed index chains) {chain : List α} (hchain : ∀ a ∈ chain, index a = i) :
    Placed index (chains.set i chain) := by
  intro j other hother a ha
  rw [List.getElem?_set] at hother
  split at hother
  · next hij =>
      split at hother
      · obtain rfl := Option.some.inj hother
        exact (hchain a ha).trans hij
      · exact absurd hother (by simp)
  · exact h j other hother a ha

/-- A new chain in place of an old one. -/
theorem coe_set_add (hchain : chains[i]? = some chain) (chain' : List α) :
    (((chains.set i chain').flatten : List α) : Multiset α) + chain = chains.flatten + chain' := by
  induction chains generalizing i with
  | nil => exact absurd hchain (by simp)
  | cons first rest ih =>
      cases i with
      | zero =>
          obtain rfl : first = chain := Option.some.inj hchain
          simp only [List.set_cons_zero, List.flatten_cons, ← Multiset.coe_add]
          abel
      | succ i =>
          have hrest := ih (i := i) hchain
          simp only [List.set_cons_succ, List.flatten_cons, ← Multiset.coe_add]
          rw [add_assoc, hrest, add_assoc]

/-- The first chain with an element begins what there is. -/
theorem find_cases (chains : List (List α)) :
    (chains.find? fun chain => chain ≠ []) = none ∧ chains.flatten = []
      ∨ ∃ i chain, (chains.find? fun chain => chain ≠ []) = some chain ∧ chains[i]? = some chain
        ∧ chain ≠ [] ∧ chains.flatten = chain ++ (chains.drop (i + 1)).flatten := by
  induction chains with
  | nil => exact .inl ⟨rfl, rfl⟩
  | cons first rest ih =>
      cases first with
      | cons a first => exact .inr ⟨0, a :: first, by simp⟩
      | nil =>
          rcases ih with ⟨hfind, hflatten⟩ | ⟨i, chain, hfind, hchain, hne, hflatten⟩
          · exact .inl ⟨by simpa using hfind, by simpa using hflatten⟩
          · exact .inr ⟨i + 1, chain, by simpa using hfind, hchain, hne, by simpa using hflatten⟩

theorem sum_map_coe {β : Type*} (f : β → List α) (l : List β) :
    (l.map fun b => (f b : Multiset α)).sum = l.flatMap f := by
  induction l with
  | nil => rfl
  | cons b l ih => rw [List.map_cons, List.sum_cons, ih, List.flatMap_cons, Multiset.coe_add]

end Chains

/-! ## The entries of a finite map -/

namespace Finmap

variable {κ : Type*} {β : κ → Type*} [DecidableEq κ] {m : Finmap β} {k : κ} {v : β k}

theorem lookup_eq_some : m.lookup k = some v ↔ ⟨k, v⟩ ∈ m.entries :=
  induction_on m fun _ => AList.mem_lookup_iff

theorem entries_erase_of_mem {rest : Multiset (Sigma β)} (h : m.entries = ⟨k, v⟩ ::ₘ rest) :
    (m.erase k).entries = rest := by
  induction m using Finmap.induction_on with
  | H l =>
      induction rest using Quotient.inductionOn with
      | h rest =>
          have hperm : l.entries.Perm (⟨k, v⟩ :: rest) := Multiset.coe_eq_coe.mp h
          have hrest : List.kerase k (⟨k, v⟩ :: rest) = rest := List.kerase_cons_eq rfl
          rw [erase_toFinmap, ← hrest]
          exact Multiset.coe_eq_coe.mpr (hperm.kerase l.nodupKeys)

theorem erase_of_notMem (h : k ∉ m) : m.erase k = m := by
  refine ext_lookup fun k' => ?_
  rcases eq_or_ne k' k with rfl | hne
  · rw [lookup_erase, lookup_eq_none.mpr h]
  · exact lookup_erase_ne hne

theorem entries_insert_of_mem {rest : Multiset (Sigma β)} {v' : β k}
    (h : m.entries = ⟨k, v'⟩ ::ₘ rest) : (m.insert k v).entries = ⟨k, v⟩ ::ₘ rest := by
  have hinsert : m.insert k v = (m.erase k).insert k v := by
    refine ext_lookup fun k' => ?_
    rcases eq_or_ne k' k with rfl | hne
    · rw [lookup_insert, lookup_insert]
    · rw [lookup_insert_of_ne _ hne, lookup_insert_of_ne _ hne, lookup_erase_ne hne]
  rw [hinsert, entries_insert_of_notMem notMem_erase_self, entries_erase_of_mem h]

end Finmap

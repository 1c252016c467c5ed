import CLogTest.Ackermann.Natural

set_option autoImplicit false

/-! # Overflow and the log

`ackermann` and the recursion over unbounded naturals run through the same activations until an
`n + 1` wraps. Both directions are instances of `RecProc.eval_sim`:

* from the naturals down (`wordProc_eval_of_lt`): when `ack m n` fits in 32 bits, so does every
  argument of the run, and the C code replays it call by call;
* from the words up (`natProc_eval_of_not_mem`): when `(0, 2³² - 1)` is never logged, no `n + 1`
  wraps and the naturals replay the C code.

Hence the wrap-around shows up in the log exactly when the value does not fit
(`overflow_iff_mem_calls`), and the log, its length and the depth of an in-range run are those of
the recursion over naturals. -/

namespace CLogTest

/-- The arguments of an activation, read as naturals. -/
def toNats (a : UInt32 × UInt32) : ℕ × ℕ := (a.1.toNat, a.2.toNat)

/-- The arguments of an activation, wrapped to 32 bits. -/
def toWords (a : ℕ × ℕ) : UInt32 × UInt32 := (UInt32.ofNat a.1, UInt32.ofNat a.2)

theorem toWords_toNats (a : UInt32 × UInt32) : toWords (toNats a) = a := by
  simp [toWords, toNats]

/-- The activation whose `n + 1` wraps. -/
def wrapping : UInt32 × UInt32 := (0, 4294967295)

theorem toNat_succ {x : UInt32} (h : x ≠ 4294967295) : (x + 1).toNat = x.toNat + 1 := by
  have hne : x.toNat ≠ 4294967295 := fun h' => h (UInt32.toNat_inj.mp h')
  have hlt : x.toNat < 4294967296 := x.toNat_lt
  rw [UInt32.toNat_add]
  exact Nat.mod_eq_of_lt (by simpa using by omega)

theorem ofNat_zero : UInt32.ofNat 0 = 0 := rfl

theorem ofNat_ne_zero {k : ℕ} (hk : k ≠ 0) (hlt : k < 2 ^ 32) : UInt32.ofNat k ≠ 0 := by
  intro h
  have h' : (UInt32.ofNat k).toNat = 0 := by rw [h]; rfl
  rw [UInt32.toNat_ofNat_of_lt' hlt] at h'
  exact hk h'

theorem ofNat_pred {k : ℕ} (hk : k ≠ 0) : UInt32.ofNat (k - 1) = UInt32.ofNat k - 1 :=
  UInt32.ofNat_sub (Nat.pos_of_ne_zero hk)

/-! ## From the naturals down -/

/-- An activation whose arguments fit in 32 bits runs the same on words. -/
theorem natBody_sim (a : ℕ × ℕ) (ha : ¬ (2 ^ 32 ≤ a.1 ∨ 2 ^ 32 ≤ a.2)) :
    Resume.Sim toWords UInt32.ofNat (natProc.body a) (wordProc.body (toWords a)) := by
  obtain ⟨m, n⟩ := a
  obtain ⟨hm, hn⟩ : m < 2 ^ 32 ∧ n < 2 ^ 32 := by simpa using ha
  simp only [natProc, wordProc, ackermannProc, ackermannBody, toWords]
  by_cases hm0 : m = 0
  · subst hm0
    rw [if_pos rfl, if_pos ofNat_zero, ← UInt32.ofNat_one, ← UInt32.ofNat_add]
    exact .ret (n + 1)
  · rw [if_neg hm0, if_neg (ofNat_ne_zero hm0 hm), ← ofNat_pred hm0]
    by_cases hn0 : n = 0
    · subst hn0
      rw [if_pos rfl, if_pos ofNat_zero]
      exact .call (m - 1, 1) _ _ fun r => .ret r
    · rw [if_neg hn0, if_neg (ofNat_ne_zero hn0 hn), ← ofNat_pred hn0]
      exact .call (m, n - 1) _ _ fun r => .call (m - 1, r) _ _ fun r' => .ret r'

/-- **In-range runs are replayed by the C code.** -/
theorem wordProc_eval_of_lt (m n : UInt32) (h : ack m.toNat n.toNat < 2 ^ 32) :
    wordProc.eval (m, n)
      = (UInt32.ofNat (ack m.toNat n.toNat), (natProc.callTree (toNats (m, n))).map toWords) := by
  have hgood : ∀ a ∈ natProc.calls (toNats (m, n)), ¬ (2 ^ 32 ≤ a.1 ∨ 2 ^ 32 ≤ a.2) := by
    intro a ha
    obtain ⟨h1, h2⟩ := natCalls_bound m.toNat n.toNat a ha
    have hm : m.toNat < 2 ^ 32 := m.toNat_lt
    omega
  have hsim := natProc.eval_sim wordProc toWords UInt32.ofNat _ natBody_sim (toNats (m, n)) hgood
  rw [toWords_toNats] at hsim
  rw [hsim, toNats, natProc_value]

/-- In an in-range run the activations are those of the recursion over naturals. -/
theorem wordCalls_map_of_lt (m n : UInt32) (h : ack m.toNat n.toNat < 2 ^ 32) :
    (wordProc.calls (m, n)).map toNats = natProc.calls (m.toNat, n.toNat) := by
  rw [RecProc.calls, RecProc.callTree, wordProc_eval_of_lt m n h, CallTree.visits_map, List.map_map]
  have hid : ∀ a ∈ (natProc.callTree (toNats (m, n))).visits, (toNats ∘ toWords) a = a := by
    intro a ha
    obtain ⟨h1, h2⟩ := natCalls_bound m.toNat n.toNat a ha
    have hm : a.1 < 2 ^ 32 := lt_of_le_of_lt h1 m.toNat_lt
    have hn : a.2 < 2 ^ 32 := h2.trans h
    simp only [Function.comp_apply, toNats, toWords, UInt32.toNat_ofNat_of_lt' hm,
      UInt32.toNat_ofNat_of_lt' hn]
  exact (List.map_congr_left hid).trans (List.map_id' _)

/-- In an in-range run every logged pair stays below the value, and its `n + 1` does not wrap. -/
theorem wordCalls_bound_of_lt (m n : UInt32) (h : ack m.toNat n.toNat < 2 ^ 32) :
    ∀ a ∈ wordProc.calls (m, n),
      a.1 ≤ m ∧ a.2.toNat < ack m.toNat n.toNat ∧ (a.2 + 1).toNat = a.2.toNat + 1 := by
  intro a ha
  have hmem : toNats a ∈ natProc.calls (m.toNat, n.toNat) := by
    rw [← wordCalls_map_of_lt m n h]
    exact List.mem_map_of_mem ha
  obtain ⟨h1, h2⟩ := natCalls_bound m.toNat n.toNat _ hmem
  simp only [toNats] at h1 h2
  refine ⟨UInt32.le_iff_toNat_le.mpr h1, h2, toNat_succ ?_⟩
  intro hmax
  have hval : a.2.toNat = 4294967295 := by rw [hmax]; rfl
  omega

/-! ## From the words up -/

/-- An activation other than `(0, 2³² - 1)` runs the same on naturals. -/
theorem wordBody_sim (a : UInt32 × UInt32) (ha : ¬ a = wrapping) :
    Resume.Sim toNats UInt32.toNat (wordProc.body a) (natProc.body (toNats a)) := by
  obtain ⟨m, n⟩ := a
  simp only [natProc, wordProc, ackermannProc, ackermannBody, toNats]
  by_cases hm0 : m = 0
  · subst hm0
    have hn : n ≠ 4294967295 := fun hn => ha (by rw [hn, wrapping])
    rw [if_pos rfl, if_pos (UInt32.toNat_zero), ← toNat_succ hn]
    exact .ret (n + 1)
  · rw [if_neg hm0, if_neg (toNat_ne_zero hm0), ← toNat_pred hm0]
    by_cases hn0 : n = 0
    · subst hn0
      rw [if_pos rfl, if_pos UInt32.toNat_zero]
      exact .call (m - 1, 1) _ _ fun r => .ret r
    · rw [if_neg hn0, if_neg (toNat_ne_zero hn0), ← toNat_pred hn0]
      exact .call (m, n - 1) _ _ fun r => .call (m - 1, r) _ _ fun r' => .ret r'

/-- **A run that never logs `(0, 2³² - 1)` is replayed by the naturals.** -/
theorem natProc_eval_of_not_mem (a : UInt32 × UInt32) (h : wrapping ∉ wordProc.calls a) :
    natProc.eval (toNats a) = ((wordProc.value a).toNat, (wordProc.callTree a).map toNats) :=
  wordProc.eval_sim natProc toNats UInt32.toNat _ wordBody_sim a fun _ hx heq => h (heq ▸ hx)

/-- **Overflow is visible in the log.** -/
theorem overflow_iff_mem_calls (m n : UInt32) :
    wrapping ∈ wordProc.calls (m, n) ↔ 2 ^ 32 ≤ ack m.toNat n.toNat := by
  constructor
  · intro hmem
    by_contra hlt
    obtain ⟨-, hn, -⟩ := wordCalls_bound_of_lt m n (not_le.mp hlt) _ hmem
    have hval : wrapping.2.toNat = 4294967295 := rfl
    omega
  · intro hge
    by_contra hmem
    have hval : ack m.toNat n.toNat = (wordProc.value (m, n)).toNat := by
      rw [← natProc_value]
      exact congrArg Prod.fst (natProc_eval_of_not_mem (m, n) hmem)
    rw [hval] at hge
    exact absurd (wordProc.value (m, n)).toNat_lt (not_lt.mpr hge)

/-! ## The log, the length of the log and the depth of an in-range run -/

/-- **Overflow is visible in the log and absent from every in-range run.** -/
theorem ackermann_overflow_logged {σ : Type*} (loggingFunc : UInt32 → UInt32 → σ → σ) (m n : UInt32)
    (s : σ) :
    (ack m.toNat n.toNat < 2 ^ 32 →
        (callsWith loggingFunc m n s).map toNats = natProc.calls (m.toNat, n.toNat)
          ∧ ∀ a ∈ callsWith loggingFunc m n s,
              a.1 ≤ m ∧ a.2.toNat < ack m.toNat n.toNat ∧ (a.2 + 1).toNat = a.2.toNat + 1)
      ∧ ((0, 4294967295) ∈ callsWith loggingFunc m n s ↔ ¬ ack m.toNat n.toNat < 2 ^ 32) := by
  rw [callsWith_eq_calls, not_lt]
  exact ⟨fun h => ⟨wordCalls_map_of_lt m n h, wordCalls_bound_of_lt m n h⟩,
    overflow_iff_mem_calls m n⟩

/-- The length of the log of an in-range run. -/
theorem wordCalls_length_of_lt (m n : UInt32) (h : ack m.toNat n.toNat < 2 ^ 32) :
    (wordProc.calls (m, n)).length = callCount m.toNat n.toNat := by
  rw [callCount, ← wordCalls_map_of_lt m n h, List.length_map]

/-- **The number of logging calls** of the first rows, over the naturals and in the C code. -/
theorem ackermann_callCount {σ : Type*} (loggingFunc : UInt32 → UInt32 → σ → σ) (s : σ) :
    (∀ n, callCount 1 n = 2 * n + 2)
      ∧ (∀ n, callCount 2 n = 2 * n ^ 2 + 7 * n + 5)
      ∧ (∀ n, 3 * callCount 3 n + 120 * 2 ^ n = 128 * 4 ^ n + 9 * n + 37)
      ∧ (∀ m n : UInt32, ack m.toNat n.toNat < 2 ^ 32 →
            (callsWith loggingFunc m n s).length = callCount m.toNat n.toNat)
      ∧ callCount 3 10 = 44698325 := by
  refine ⟨callCount_one, callCount_two, callCount_three, ?_, ?_⟩
  · intro m n h
    rw [callsWith_eq_calls, wordCalls_length_of_lt m n h]
  · have h : 3 * callCount 3 10 + 120 * 2 ^ 10 = 128 * 4 ^ 10 + 9 * 10 + 37 := callCount_three 10
    generalize callCount 3 10 = count at h ⊢
    omega

/-- The depth of an in-range run. -/
theorem wordHeight_of_lt (m n : UInt32) (h : ack m.toNat n.toNat < 2 ^ 32) :
    (wordProc.callTree (m, n)).height = (natProc.callTree (m.toNat, n.toNat)).height := by
  rw [RecProc.callTree, wordProc_eval_of_lt m n h, CallTree.height_map, toNats]

/-- **The nesting of the recursion.** The tree of the C code is the one whose preorder is logged. -/
theorem ackermann_height {σ : Type*} (loggingFunc : UInt32 → UInt32 → σ → σ) (s : σ) :
    (∀ n, (natProc.callTree (0, n)).height = 1)
      ∧ (∀ m n, 1 ≤ m → (natProc.callTree (m, n)).height = ack m n + m - 1)
      ∧ ∀ m n : UInt32,
          callsWith loggingFunc m n s = (wordProc.callTree (m, n)).visits
          ∧ (ack m.toNat n.toNat < 2 ^ 32 →
              (wordProc.callTree (m, n)).height
                = (natProc.callTree (m.toNat, n.toNat)).height) := by
  refine ⟨natHeight_zero, ?_, ?_⟩
  · intro m n hm
    obtain ⟨m, rfl⟩ := Nat.exists_eq_add_of_le' hm
    rw [natHeight_succ]
    omega
  · intro m n
    exact ⟨callsWith_eq_calls loggingFunc m n s, wordHeight_of_lt m n⟩

end CLogTest

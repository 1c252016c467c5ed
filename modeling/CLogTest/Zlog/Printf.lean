import CLogTest.Zlog.Scan

set_option autoImplicit false

/-! # Printing numbers

The conversions of `printf` that zlog builds texts with. `%0*d` pads with zeros on the left, and for
a negative width with spaces on the right; what it prints is read back by `%d`
(`scanInt_printInt`). -/

namespace CLogTest.Zlog

/-- `%d` of a number that is not negative. -/
def digits (j : ℕ) : Text := Nat.toDigits 10 j

/-- `%0*d` of a number that is not negative. -/
def printInt (width : ℤ) (j : ℕ) : Text :=
  if 0 ≤ width then List.replicate (width.toNat - (digits j).length) '0' ++ digits j
  else digits j ++ List.replicate ((-width).toNat - (digits j).length) ' '

theorem isDigit_of_mem_digits {j : ℕ} {c : Char} (h : c ∈ digits j) : c.isDigit = true :=
  Nat.isDigit_of_mem_toDigits (by decide) (by decide) h

theorem digits_ne_nil (j : ℕ) : digits j ≠ [] := Nat.toDigits_ne_nil

/-- What is read: the digits up to `rest`, which goes on with something else. -/
theorem takeWhile_isDigit {ds rest : Text} (hds : ∀ c ∈ ds, c.isDigit = true)
    (hrest : ∀ c ∈ rest.head?, c.isDigit = false) :
    (ds ++ rest).takeWhile Char.isDigit = ds ∧ (ds ++ rest).dropWhile Char.isDigit = rest := by
  induction ds with
  | nil =>
      cases rest with
      | nil => exact ⟨rfl, rfl⟩
      | cons c rest =>
          have hc := hrest c rfl
          constructor <;> simp [hc]
  | cons d ds ih =>
      have hd := hds d List.mem_cons_self
      obtain ⟨htake, hdrop⟩ := ih fun c hc => hds c (List.mem_cons_of_mem d hc)
      simp [hd, htake, hdrop]

theorem foldl_digits (ds : Text) (hds : ∀ c ∈ ds, c.isDigit = true) (v : ℕ) :
    ds.foldl (fun (v : ℤ) c => 10 * v + (c.toNat - '0'.toNat : ℤ)) v
      = (Nat.ofDigitChars 10 ds v : ℤ) := by
  induction ds generalizing v with
  | nil => rfl
  | cons d ds ih =>
      have hd := (Char.isDigit_iff_toNat.mp (hds d List.mem_cons_self)).1
      rw [List.foldl_cons, Nat.ofDigitChars_cons,
        ← ih fun c hc => hds c (List.mem_cons_of_mem d hc)]
      congr 1
      rw [Int.natCast_add, Int.natCast_mul, Int.ofNat_sub hd]
      rfl

theorem digitsValue_append {ds rest : Text} (hds : ∀ c ∈ ds, c.isDigit = true)
    (hrest : ∀ c ∈ rest.head?, c.isDigit = false) :
    digitsValue (ds ++ rest) = (Nat.ofDigitChars 10 ds 0 : ℤ) := by
  unfold digitsValue
  rw [(takeWhile_isDigit hds hrest).1]
  exact foldl_digits ds hds 0

/-- A digit is neither white space nor a sign. -/
theorem ne_of_isDigit {c : Char} (h : c.isDigit = true) :
    isSpace c = false ∧ c ≠ '-' ∧ c ≠ '+' := by
  have hne : ∀ d : Char, d.isDigit = false → c ≠ d := by
    rintro d hd rfl
    rw [h] at hd
    exact Bool.noConfusion hd
  refine ⟨?_, hne _ rfl, hne _ rfl⟩
  unfold isSpace
  simp only [decide_eq_false_iff_not, not_or]
  exact ⟨hne _ rfl, hne _ rfl, hne _ rfl, hne _ rfl, hne _ rfl, hne _ rfl⟩

/-- `%d` reads the digits in front of `rest`. -/
theorem scanInt_append {ds rest : Text} (hne : ds ≠ []) (hds : ∀ c ∈ ds, c.isDigit = true)
    (hrest : ∀ c ∈ rest.head?, c.isDigit = false) :
    scanInt (ds ++ rest) = some ((Nat.ofDigitChars 10 ds 0 : ℤ), rest) := by
  have hvalue := digitsValue_append hds hrest
  obtain ⟨htake, hdrop⟩ := takeWhile_isDigit hds hrest
  obtain ⟨d, ds', rfl⟩ := List.exists_cons_of_ne_nil hne
  obtain ⟨hspace, hminus, hplus⟩ := ne_of_isDigit (hds d List.mem_cons_self)
  rw [List.cons_append] at hvalue htake hdrop ⊢
  have hskip : skipSpace (d :: (ds' ++ rest)) = d :: (ds' ++ rest) := by
    simp [skipSpace, hspace]
  have hatoi : atoi (d :: (ds' ++ rest)) = (Nat.ofDigitChars 10 (d :: ds') 0 : ℤ) := by
    rw [← hvalue]
    unfold atoi
    rw [List.dropWhile_cons_of_neg (by simp [hspace])]
    split
    · next heq => exact absurd (List.cons.inj heq).1 hminus
    · next heq => exact absurd (List.cons.inj heq).1 hplus
    · rfl
  unfold scanInt
  simp only [hskip, hatoi]
  have hbody : ∀ s : Text, s = d :: (ds' ++ rest) →
      (if (s.takeWhile Char.isDigit).isEmpty then none
        else some ((Nat.ofDigitChars 10 (d :: ds') 0 : ℤ), s.dropWhile Char.isDigit))
      = some ((Nat.ofDigitChars 10 (d :: ds') 0 : ℤ), rest) := by
    rintro s rfl
    rw [htake, hdrop]
    rfl
  refine hbody _ ?_
  split
  · next heq => exact absurd (List.cons.inj heq).1 hminus
  · next heq => exact absurd (List.cons.inj heq).1 hplus
  · rfl

theorem isDigit_of_mem_padded {k j : ℕ} {c : Char} (h : c ∈ List.replicate k '0' ++ digits j) :
    c.isDigit = true := by
  rcases List.mem_append.mp h with hzero | hdigit
  · rw [List.eq_of_mem_replicate hzero]
    rfl
  · exact isDigit_of_mem_digits hdigit

theorem ofDigitChars_padded (k j : ℕ) :
    Nat.ofDigitChars 10 (List.replicate k '0' ++ digits j) 0 = j := by
  rw [Nat.ofDigitChars_append, Nat.ofDigitChars_replicate_zero, Nat.mul_zero]
  exact Nat.ofDigitChars_ten_toDigits

/-- **What `%0*d` prints is read back by `%d`**, which consumes as many characters as the width at
    least. -/
theorem scanInt_printInt (width : ℤ) (j : ℕ) {rest : Text}
    (hrest : ∀ c ∈ rest.head?, c.isDigit = false) :
    ∃ tail, scanInt (printInt width j ++ rest) = some ((j : ℤ), tail)
      ∧ width ≤ ((printInt width j ++ rest).length - tail.length : ℤ) := by
  unfold printInt
  split
  · next hwidth =>
      refine ⟨rest, ?_, ?_⟩
      · rw [scanInt_append (by simp [digits_ne_nil]) (fun c => isDigit_of_mem_padded) hrest,
          ofDigitChars_padded]
      · simp only [List.length_append, List.length_replicate]
        omega
  · next hwidth =>
      refine ⟨List.replicate ((-width).toNat - (digits j).length) ' ' ++ rest, ?_, ?_⟩
      · have hhead : ∀ c ∈ (List.replicate ((-width).toNat - (digits j).length) ' '
            ++ rest).head?, c.isDigit = false := by
          cases (-width).toNat - (digits j).length with
          | zero => exact hrest
          | succ n =>
              rintro c ⟨⟩
              rfl
        rw [List.append_assoc, scanInt_append (digits_ne_nil j) (fun c => isDigit_of_mem_digits)
          hhead]
        exact congrArg (fun v : ℕ => some ((v : ℤ), _)) Nat.ofDigitChars_ten_toDigits
      · simp only [List.length_append, List.length_replicate]
        omega

theorem printInt_injective (width : ℤ) : Function.Injective (printInt width) := by
  intro i j h
  have hend : ∀ c ∈ ([] : Text).head?, c.isDigit = false := by simp
  obtain ⟨tail, hi, -⟩ := scanInt_printInt width i hend
  obtain ⟨tail', hj, -⟩ := scanInt_printInt width j hend
  rw [h, hj] at hi
  exact Int.ofNat.inj (Prod.mk.inj (Option.some.inj hi)).1.symm

end CLogTest.Zlog

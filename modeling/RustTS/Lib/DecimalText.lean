import Mathlib.Data.List.Induction
import Mathlib.Tactic.IntervalCases

/-! Decimal texts of natural numbers: a text of digits is that of its value unless it starts with a
zero that is not all of it. -/
namespace DecimalText

/-- Every test for a text among others rests on this one proof. -/
instance lawfulBEqChars : LawfulBEq (List Char) := inferInstance

theorem toDigits_injective {i j : Nat} (h : Nat.toDigits 10 i = Nat.toDigits 10 j) : i = j := by
  have hvalue := congrArg (Nat.ofDigitChars 10 · 0) h
  simpa [Nat.ofDigitChars_toDigits] using hvalue

theorem isDigit_of_mem {n : Nat} {c : Char} (h : c ∈ Nat.toDigits 10 n) : c.isDigit = true :=
  Nat.isDigit_of_mem_toDigits (by decide) (by decide) h

theorem digit_bounds {c : Char} (h : c.isDigit = true) : 48 ≤ c.toNat ∧ c.toNat ≤ 57 := by
  simp only [Char.isDigit, Bool.and_eq_true, decide_eq_true_eq] at h
  exact ⟨UInt32.le_iff_toNat_le.mp h.1, UInt32.le_iff_toNat_le.mp h.2⟩

theorem digitChar_value {c : Char} (h : c.isDigit = true) :
    (c.toNat - '0'.toNat).digitChar = c := by
  obtain ⟨hlow, hhigh⟩ := digit_bounds h
  have hchar : Char.ofNat c.toNat = c := Char.ofNat_toNat c
  rw [← hchar]
  generalize c.toNat = n at hlow hhigh
  interval_cases n <;> rfl

/-- A positive number does not start with zero. -/
theorem head_toDigits {n : Nat} (h : 0 < n) : (Nat.toDigits 10 n).head? ≠ some '0' := by
  induction n using Nat.strong_induction_on with
  | _ n ih =>
    by_cases hn : n < 10
    · rw [Nat.toDigits_of_lt_base hn]
      interval_cases n <;> decide
    · have hleading := ih (n / 10) (by omega) (by omega)
      rw [Nat.toDigits_of_base_le (by decide) (Nat.le_of_not_lt hn)]
      cases hdigits : Nat.toDigits 10 (n / 10) with
      | nil => exact absurd hdigits Nat.toDigits_ne_nil
      | cons c rest =>
        rw [hdigits] at hleading
        exact hleading

theorem ofDigitChars_pos {digits : List Char} (h : digits.all Char.isDigit = true)
    (hne : digits ≠ []) (hhead : digits.head? ≠ some '0') : 0 < Nat.ofDigitChars 10 digits 0 := by
  obtain ⟨c, rest, rfl⟩ := List.exists_cons_of_ne_nil hne
  have hc : c.isDigit = true := List.all_eq_true.mp h c (List.mem_cons_self ..)
  have hzero : c.toNat ≠ '0'.toNat := fun heq => hhead (by
    rw [List.head?_cons, Char.toNat_inj.mp heq])
  have hlow := (digit_bounds hc).1
  have hvalue : '0'.toNat = 48 := rfl
  have hpos : 0 < c.toNat - '0'.toNat := by omega
  rw [Nat.ofDigitChars_cons, Nat.ofDigitChars_eq_ofDigitChars_zero, Nat.mul_zero, Nat.zero_add]
  exact Nat.add_pos_left (Nat.mul_pos (Nat.pow_pos (by decide)) hpos) _

/-- Digits that do not start with zero are those of their value. -/
theorem toDigits_ofDigitChars {digits : List Char} (h : digits.all Char.isDigit = true)
    (hne : digits ≠ []) (hhead : digits.head? ≠ some '0') :
    Nat.toDigits 10 (Nat.ofDigitChars 10 digits 0) = digits := by
  induction digits using List.reverseRecOn with
  | nil => exact absurd rfl hne
  | append_singleton digits d ih =>
    rw [List.all_append, Bool.and_eq_true] at h
    have hd : d.isDigit = true := List.all_eq_true.mp h.2 d (List.mem_singleton_self d)
    have hbounds := digit_bounds hd
    have hlt : d.toNat - '0'.toNat < 10 := by
      have hvalue : '0'.toNat = 48 := rfl
      omega
    rw [Nat.ofDigitChars_append, Nat.ofDigitChars_cons, Nat.ofDigitChars_nil]
    cases digits with
    | nil =>
      rw [Nat.ofDigitChars_nil, Nat.mul_zero, Nat.zero_add, Nat.toDigits_of_lt_base hlt,
        digitChar_value hd]
      rfl
    | cons c digits =>
      have hpos := ofDigitChars_pos h.1 (List.cons_ne_nil _ _) hhead
      rw [← Nat.toDigits_append_toDigits (by decide) hpos hlt, ih h.1 (List.cons_ne_nil _ _) hhead,
        Nat.toDigits_of_lt_base hlt, digitChar_value hd]

end DecimalText

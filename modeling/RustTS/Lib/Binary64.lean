import Mathlib.Algebra.Order.Ring.Nat
import Mathlib.Data.Nat.Log
import Mathlib.Order.WithBot

/-! The non-negative binary64 numbers, infinity included, as multiples of the least positive
one: rounding to nearest, ties to even, and the addition it gives. -/
namespace RustTS.Binary64

/-- How many low bits of `n` do not fit the 53 bits of a significand. -/
def excess (n : ℕ) : ℕ := Nat.log 2 n - 52

/-- A number with 53 significant bits that is below the overflow threshold, `2 ^ 2098`. -/
def Representable (n : ℕ) : Prop := 2 ^ excess n ∣ n ∧ Nat.log 2 n < 2098

instance (n : ℕ) : Decidable (Representable n) := inferInstanceAs (Decidable (_ ∧ _))

theorem representable_zero : Representable 0 := by decide

/-- A non-negative binary64 number; `⊤` is infinity. -/
abbrev Double := WithTop {n : ℕ // Representable n}

/-- Round to the nearest multiple of `2 ^ excess n`, selecting the even one at a midpoint. -/
def roundEven (n : ℕ) : ℕ :=
  let h := 2 ^ excess n
  let q := n / h
  let r := n % h
  if 2 * r < h then q * h
  else if h < 2 * r then (q + 1) * h
  else (q + q % 2) * h

theorem roundEven_cases (n : ℕ) : roundEven n = n / 2 ^ excess n * 2 ^ excess n ∨
    roundEven n = (n / 2 ^ excess n + 1) * 2 ^ excess n := by
  unfold roundEven
  dsimp only
  split_ifs
  · exact .inl rfl
  · exact .inr rfl
  · rcases Nat.mod_two_eq_zero_or_one (n / 2 ^ excess n) with h | h <;> rw [h]
    · exact .inl rfl
    · exact .inr rfl

theorem floor_le_roundEven (n : ℕ) : n / 2 ^ excess n * 2 ^ excess n ≤ roundEven n := by
  rcases roundEven_cases n with h | h <;> rw [h]
  exact Nat.mul_le_mul_right _ (Nat.le_succ _)

theorem div_excess_lt (n : ℕ) : n / 2 ^ excess n < 2 ^ 53 := by
  apply Nat.div_lt_of_lt_mul
  have hlog : n < 2 ^ (Nat.log 2 n + 1) := Nat.lt_pow_succ_log_self (by decide) n
  have hexp : Nat.log 2 n + 1 ≤ excess n + 53 := by
    unfold excess
    omega
  calc
    n < 2 ^ (Nat.log 2 n + 1) := hlog
    _ ≤ 2 ^ (excess n + 53) := Nat.pow_le_pow_right (by decide) hexp
    _ = 2 ^ excess n * 2 ^ 53 := pow_add _ _ _

theorem excess_dvd {q k : ℕ} (hq : q ≤ 2 ^ 53) : 2 ^ excess (q * 2 ^ k) ∣ q * 2 ^ k := by
  rcases Nat.eq_or_lt_of_le hq with rfl | hlt
  · rw [← pow_add]
    apply pow_dvd_pow
    unfold excess
    rw [Nat.log_pow (by decide)]
    omega
  · apply Dvd.dvd.mul_left
    apply pow_dvd_pow
    unfold excess
    rcases Nat.eq_zero_or_pos q with rfl | hpos
    · rw [Nat.zero_mul, Nat.log_zero_right]
      omega
    · have hlog : Nat.log 2 (q * 2 ^ k) < 53 + k := by
        apply Nat.log_lt_of_lt_pow (Nat.mul_pos hpos (Nat.two_pow_pos _)).ne'
        rw [pow_add]
        exact Nat.mul_lt_mul_of_pos_right hlt (Nat.two_pow_pos _)
      omega

theorem roundEven_dvd (n : ℕ) : 2 ^ excess (roundEven n) ∣ roundEven n := by
  have hq := div_excess_lt n
  rcases roundEven_cases n with h | h <;> rw [h]
  · exact excess_dvd hq.le
  · exact excess_dvd hq

/-- The nearest number, or infinity past the overflow threshold. -/
def round (n : ℕ) : Double :=
  if h : Nat.log 2 (roundEven n) < 2098 then WithTop.some ⟨roundEven n, roundEven_dvd n, h⟩ else ⊤

/-- A number that fits is below whatever rounds to at least it: rounding passes no number that
fits. -/
theorem le_roundEven {a n : ℕ} (ha : Representable a) (h : a ≤ n) : a ≤ roundEven n := by
  have hmono : excess a ≤ excess n := Nat.sub_le_sub_right (Nat.log_mono_right h) 52
  suffices hfloor : a ≤ n / 2 ^ excess n * 2 ^ excess n from hfloor.trans (floor_le_roundEven n)
  by_cases hdvd : 2 ^ excess n ∣ a
  · obtain ⟨q, rfl⟩ := hdvd
    rw [Nat.mul_comm]
    apply Nat.mul_le_mul_right
    exact (Nat.le_div_iff_mul_le (Nat.two_pow_pos _)).mpr (by rwa [Nat.mul_comm])
  · -- `a` has fewer bits than `n`, whose leading bit alone is above it.
    have hlt : excess a < excess n := by
      apply Nat.lt_of_le_of_ne hmono
      intro heq
      rw [← heq] at hdvd
      exact hdvd ha.1
    have hlog : Nat.log 2 a < Nat.log 2 n := by
      unfold excess at hlt
      omega
    have hn : n ≠ 0 := by
      rintro rfl
      rw [Nat.log_zero_right] at hlog
      omega
    have hlead : 2 ^ (Nat.log 2 n) ≤ n := Nat.pow_log_le_self 2 hn
    have hsplit : Nat.log 2 n = 52 + excess n := by
      unfold excess at hlt ⊢
      omega
    have hq : 2 ^ 52 ≤ n / 2 ^ excess n := by
      apply (Nat.le_div_iff_mul_le (Nat.two_pow_pos _)).mpr
      rwa [← pow_add, ← hsplit]
    calc
      a ≤ 2 ^ (Nat.log 2 n) :=
        (Nat.lt_pow_of_log_lt (by decide) hlog).le
      _ = 2 ^ 52 * 2 ^ excess n := by rw [hsplit, pow_add]
      _ ≤ n / 2 ^ excess n * 2 ^ excess n := Nat.mul_le_mul_right _ hq

/-- Rounded addition. -/
def add : Double → Double → Double
  | WithTop.some a, WithTop.some b => round (a.1 + b.1)
  | _, _ => ⊤

theorem le_round {a : {n : ℕ // Representable n}} {n : ℕ} (h : a.1 ≤ n) :
    (WithTop.some a : Double) ≤ round n := by
  unfold round
  split_ifs with hfin
  · exact WithTop.coe_le_coe.mpr (le_roundEven a.2 h)
  · exact le_top

theorem le_add (a b : Double) : a ≤ add a b := by
  induction a using WithTop.recTopCoe with
  | top => exact le_rfl
  | coe a =>
    induction b using WithTop.recTopCoe with
    | top => exact le_top
    | coe b => exact le_round (Nat.le_add_right _ _)

/-- Round the quotient `p / q` to the nearest multiple that fits its whole part, selecting the even
one at a midpoint. -/
def roundQuotient (p q : ℕ) : ℕ :=
  let h := 2 ^ excess (p / q)
  let m := p / q / h
  let r := p - m * h * q
  if 2 * r < h * q then m * h
  else if h * q < 2 * r then (m + 1) * h
  else (m + m % 2) * h

theorem roundQuotient_dvd (p q : ℕ) : 2 ^ excess (roundQuotient p q) ∣ roundQuotient p q := by
  have hm := div_excess_lt (p / q)
  unfold roundQuotient
  dsimp only
  split_ifs
  · exact excess_dvd hm.le
  · exact excess_dvd hm
  · apply excess_dvd
    have heven := Nat.mod_lt (p / q / 2 ^ excess (p / q)) Nat.two_pos
    omega

/-- The number nearest to the quotient, or infinity past the overflow threshold. -/
def ofQuotient (p q : ℕ) : Double :=
  if h : Nat.log 2 (roundQuotient p q) < 2098 then
    WithTop.some ⟨roundQuotient p q, roundQuotient_dvd p q, h⟩
  else ⊤

/-- The number nearest to `digits * 10 ^ exponent`. -/
def ofDecimal (digits : ℕ) (exponent : ℤ) : Double :=
  ofQuotient (digits * 10 ^ exponent.toNat * 2 ^ 1074) (10 ^ (-exponent).toNat)

end RustTS.Binary64

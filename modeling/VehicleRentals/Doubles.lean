import Mathlib.Algebra.Order.Field.Power
import Mathlib.Data.Rat.Floor
import Mathlib.Tactic.Linarith

/-!
# Quotients of integers as doubles

Python divides two integers, or two spans of time, to the double nearest to their quotient.
Its significand has 53 places, so a quotient that is a smaller integer is exact
(`trueDiv_mul`), and others are rounded. The ends of the range of exponents are left out.
-/

namespace Doubles

/-- The nearest integer, halves to even. -/
def roundHalfEven (q : ℚ) : ℤ :=
  let below := q.floor
  if q - below < 1 / 2 ∨ q - below = 1 / 2 ∧ below % 2 = 0 then below else below + 1

/-- `a / b`. -/
def trueDiv (a b : ℤ) : ℚ :=
  if a = 0 then 0
  else
    let q : ℚ := a.natAbs / b.natAbs
    -- the exponent of the quotient, or one more
    let s : ℤ := a.natAbs.log2 - b.natAbs.log2
    let lastPlace : ℚ := 2 ^ ((if 2 ^ s ≤ q then s else s - 1) - 52)
    a.sign * b.sign * roundHalfEven (q / lastPlace) * lastPlace

theorem roundHalfEven_intCast (n : ℤ) : roundHalfEven n = n := by
  have below : (n : ℚ).floor = n := Rat.floor_intCast n
  simp [roundHalfEven, below]

/-- A quotient that is an integer of 53 places is not rounded. -/
theorem trueDiv_mul {k b : ℤ} (hk : 0 < k) (hb : 0 < b) (small : k < 2 ^ 53) : trueDiv (k * b) b = k := by
  lift k to ℕ using hk.le
  lift b to ℕ using hb.le
  have hk : 0 < k := by exact_mod_cast hk
  have hb : 0 < b := by exact_mod_cast hb
  have small : k < 2 ^ 53 := by exact_mod_cast small
  have quotient : (((k * b : ℕ) : ℚ) / b) = k := by
    have positive : (b : ℚ) ≠ 0 := by positivity
    rw [Nat.cast_mul, mul_div_assoc, div_self positive, mul_one]
  have log : (k * b).log2 ≤ 53 + b.log2 := by
    refine Nat.lt_succ_iff.1 ((Nat.log2_lt (by positivity)).2 ?_)
    calc k * b < 2 ^ 53 * 2 ^ (b.log2 + 1) := Nat.mul_lt_mul'' small Nat.lt_log2_self
      _ = 2 ^ (53 + b.log2).succ := by rw [← pow_add]; congr 1
  -- the last place is not above the units
  have units : ∀ s : ℤ, s ≤ 53 → (if (2 : ℚ) ^ s ≤ k then s else s - 1) - 52 ≤ 0 := by
    intro s hs
    split_ifs with le
    · have lt : (2 : ℚ) ^ s < 2 ^ (53 : ℤ) := lt_of_le_of_lt le (by exact_mod_cast small)
      have := (zpow_lt_zpow_iff_right₀ one_lt_two).1 lt
      omega
    · omega
  have exact : ∀ e : ℤ, e ≤ 0 → (roundHalfEven ((k : ℚ) / 2 ^ e) : ℚ) * 2 ^ e = k := by
    intro e he
    obtain ⟨n, rfl⟩ : ∃ n : ℕ, e = -n := ⟨(-e).toNat, by omega⟩
    have whole : (k : ℚ) / 2 ^ (-(n : ℤ)) = ((k * 2 ^ n : ℕ) : ℤ) := by
      rw [zpow_neg, div_inv_eq_mul]
      push_cast
      rfl
    rw [whole, roundHalfEven_intCast, ← whole, div_mul_cancel₀ _ (by positivity)]
  have ne : (k : ℤ) * b ≠ 0 := by positivity
  have abs : ((k : ℤ) * b).natAbs = k * b := by exact_mod_cast Int.natAbs_natCast (k * b)
  have sign : ((k : ℤ) * b).sign = 1 := Int.sign_eq_one_of_pos (by positivity)
  have sign' : (b : ℤ).sign = 1 := Int.sign_eq_one_of_pos (by exact_mod_cast hb)
  rw [trueDiv, if_neg ne]
  simp only [abs, sign, sign', Int.natAbs_natCast, quotient, Int.cast_one, one_mul, Int.cast_natCast]
  exact exact _ (units _ (by omega))

end Doubles

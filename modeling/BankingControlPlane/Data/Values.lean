import BankingControlPlane.Data.Decimal
import Mathlib.Algebra.Order.Field.Power
import Mathlib.Algebra.Order.Field.Rat
import Mathlib.Tactic.FieldSimp
import Mathlib.Tactic.Linarith
import Mathlib.Tactic.Positivity

/-!
# What a decimal is worth

* `Decimal.value` : the rational number a decimal writes;
* `le_iff_value`, `lt_iff_value`, `equals_iff_value` : the comparisons compare values;
* `value_sub`, `value_ofInt` : the arithmetic is exact;
* `value_of_wholeCents`, `wholeCents_of_value` : the decimals that are a whole number of hundredths.
-/

namespace Decimal

/-- The signed coefficient. -/
def coefficient (d : Decimal) : Int := if d.negative then -(d.digits : Int) else d.digits

def value (d : Decimal) : ℚ := d.coefficient * (10 : ℚ) ^ d.exponent

theorem scaled_eq (d : Decimal) (m : Int) : d.scaled m = d.coefficient * 10 ^ (d.exponent - m).toNat :=
  rfl

theorem scaled_value (d : Decimal) {m : Int} (h : m ≤ d.exponent) :
    (d.scaled m : ℚ) * (10 : ℚ) ^ m = d.value := by
  have he : ((d.exponent - m).toNat : Int) = d.exponent - m := by omega
  have hp : (10 : ℚ) ^ (d.exponent - m).toNat * (10 : ℚ) ^ m = (10 : ℚ) ^ d.exponent := by
    rw [← zpow_natCast, ← zpow_add₀ (by norm_num : (10 : ℚ) ≠ 0), he, Int.sub_add_cancel]
  rw [scaled_eq]
  push_cast
  rw [mul_assoc, hp, value]

theorem pow_ten_pos (m : Int) : (0 : ℚ) < (10 : ℚ) ^ m := by positivity

theorem le_iff_value {a b : Decimal} : a ≤ b ↔ a.value ≤ b.value := by
  rw [← a.scaled_value (min_le_left a.exponent b.exponent),
    ← b.scaled_value (min_le_right a.exponent b.exponent),
    mul_le_mul_iff_of_pos_right (pow_ten_pos _), Int.cast_le]
  exact Iff.rfl

theorem lt_iff_value {a b : Decimal} : a < b ↔ a.value < b.value := by
  rw [← not_le, ← le_iff_value, ← not_lt, not_not]

theorem equals_iff_value {a b : Decimal} : a.equals b = true ↔ a.value = b.value := by
  rw [← a.scaled_value (min_le_left a.exponent b.exponent),
    ← b.scaled_value (min_le_right a.exponent b.exponent),
    mul_left_inj' (pow_ten_pos _).ne', Int.cast_inj]
  simp [equals]

theorem coefficient_ofInt (z e : Int) : (ofInt z e).coefficient = z := by
  change (if decide (z < 0) = true then -(z.natAbs : Int) else z.natAbs) = z
  split_ifs with h
  · rw [decide_eq_true_eq] at h
    omega
  · rw [decide_eq_true_eq] at h
    omega

theorem value_ofInt (z e : Int) : (ofInt z e).value = z * (10 : ℚ) ^ e := by
  rw [value, coefficient_ofInt]
  rfl

/-- Subtraction is exact. -/
theorem value_sub (a b : Decimal) : (a.sub b).value = a.value - b.value := by
  rw [sub, value_ofInt]
  push_cast
  rw [sub_mul, scaled_value a (min_le_left _ _), scaled_value b (min_le_right _ _)]

theorem value_of_pos (n : Nat) (e : Int) : value ⟨false, n, e⟩ = n * (10 : ℚ) ^ e := by
  simp [value, coefficient]

theorem value_zero (negative : Bool) (e : Int) : value ⟨negative, 0, e⟩ = 0 := by
  simp [value, coefficient]

/-- The sign of zero does not count. -/
theorem value_unsigned {negative : Bool} {n : Nat} (h : ¬ (negative = true ∧ n ≠ 0)) (e : Int) :
    value ⟨negative, n, e⟩ = n * (10 : ℚ) ^ e := by
  cases negative with
  | false => exact value_of_pos n e
  | true =>
    obtain rfl : n = 0 := by simpa using h
    rw [value_zero, Nat.cast_zero, zero_mul]

theorem value_cents (n : Nat) : (cents n).value = n / 100 := by
  rw [cents, value_of_pos, zpow_neg, div_eq_mul_inv]
  rfl

/-- Moving the point two places left. -/
theorem pow_ten_cents (e : Int) : (10 : ℚ) ^ e = (10 : ℚ) ^ (e + 2) / 100 := by
  rw [zpow_add₀ (by norm_num : (10 : ℚ) ≠ 0)]
  norm_num

/-- A decimal with so many whole hundredths is worth them. -/
theorem value_of_wholeCents {d : Decimal} {n : Nat} (h : d.wholeCents? = some n) :
    d.value = n / 100 := by
  obtain ⟨negative, digits, exponent⟩ := d
  unfold wholeCents? at h
  dsimp only at h
  split_ifs at h with hneg hexp hmod
  · have hn : n = digits * 10 ^ (exponent + 2).toNat := (Option.some.inj h).symm
    rw [value_unsigned hneg, pow_ten_cents, hn]
    push_cast
    rw [← zpow_natCast, Int.toNat_of_nonneg (by omega), mul_div_assoc]
  · have hn : n = digits / 10 ^ (-2 - exponent).toNat := (Option.some.inj h).symm
    have hdigits : digits = n * 10 ^ (-2 - exponent).toNat := by
      rw [hn, Nat.div_mul_cancel (Nat.dvd_of_mod_eq_zero hmod)]
    rw [value_unsigned hneg, pow_ten_cents, hdigits]
    push_cast
    rw [← zpow_natCast, Int.toNat_of_nonneg (by omega), mul_assoc, ← mul_div_assoc,
      ← zpow_add₀ (by norm_num : (10 : ℚ) ≠ 0), show -2 - exponent + (exponent + 2) = 0 by omega,
      zpow_zero, mul_one_div]

theorem value_neg {n : Nat} (h : n ≠ 0) (e : Int) : value ⟨true, n, e⟩ < 0 := by
  have hn : (0 : ℚ) < n := by exact_mod_cast Nat.pos_of_ne_zero h
  have hp : (0 : ℚ) < n * (10 : ℚ) ^ e := mul_pos hn (pow_ten_pos e)
  have hv : value ⟨true, n, e⟩ = -(n * (10 : ℚ) ^ e) := by simp [value, coefficient]
  rw [hv]
  exact neg_lt_zero.mpr hp

/-- A decimal worth so many hundredths has them. -/
theorem wholeCents_of_value {d : Decimal} {n : Nat} (h : d.value = n / 100) :
    d.wholeCents? = some n := by
  obtain ⟨negative, digits, exponent⟩ := d
  have hneg : ¬ (negative = true ∧ digits ≠ 0) := by
    rintro ⟨rfl, hdigits⟩
    have hlt := value_neg hdigits exponent
    rw [h] at hlt
    exact absurd hlt (not_lt_of_ge (by positivity))
  rw [value_unsigned hneg, pow_ten_cents, ← mul_div_assoc,
    div_left_inj' (by norm_num : (100 : ℚ) ≠ 0)] at h
  unfold wholeCents?
  dsimp only
  rw [if_neg hneg]
  by_cases hexp : -2 ≤ exponent
  · have hn : ((digits * 10 ^ (exponent + 2).toNat : Nat) : ℚ) = n := by
      push_cast
      rw [← zpow_natCast, Int.toNat_of_nonneg (by omega), h]
    rw [if_pos hexp, Nat.cast_injective hn]
  · have hn : ((n * 10 ^ (-2 - exponent).toNat : Nat) : ℚ) = digits := by
      push_cast
      rw [← zpow_natCast, Int.toNat_of_nonneg (by omega), ← h, mul_assoc,
        ← zpow_add₀ (by norm_num : (10 : ℚ) ≠ 0), show exponent + 2 + (-2 - exponent) = 0 by omega,
        zpow_zero, mul_one]
    have hdigits : digits = n * 10 ^ (-2 - exponent).toNat := (Nat.cast_injective hn).symm
    rw [if_neg hexp, hdigits, if_pos (Nat.mul_mod_left _ _), Nat.mul_div_cancel _ (by positivity)]

theorem not_negative_of_wholeCents {d : Decimal} {n : Nat} (h : d.wholeCents? = some n)
    (hn : n ≠ 0) : d.negative = false := by
  obtain ⟨negative, digits, exponent⟩ := d
  cases negative with
  | false => rfl
  | true =>
    have hdigits : digits = 0 := by
      by_contra hne
      simp [wholeCents?, hne] at h
    have hvalue := value_of_wholeCents h
    rw [hdigits, value_zero, eq_comm, div_eq_zero_iff] at hvalue
    rcases hvalue with hzero | hzero
    · exact absurd (by exact_mod_cast hzero) hn
    · norm_num at hzero

theorem roundCents_of_wholeCents {d : Decimal} {n : Nat} (h : d.wholeCents? = some n) :
    d.roundCents = n := by
  unfold wholeCents? at h
  unfold roundCents
  dsimp only
  split_ifs at h with hneg hexp hmod
  · rw [if_pos hexp]
    exact Option.some.inj h
  · have hpos : 0 < 10 ^ (-2 - d.exponent).toNat := by positivity
    rw [if_neg hexp, hmod, if_pos (by omega)]
    exact Option.some.inj h

end Decimal

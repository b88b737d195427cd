import Mathlib
import Conform.Binary64
import Conform.Decimal
/- What numbers and decimals stand for. A finite number is a whole number of units, so that it has an exact value among the
   rationals (`Binary64.value?`); an infinity and a NaN have none. The sign and the magnitude of the value are read off
   apart: the sign is the sign bit, also for a zero, and the magnitude is `Binary64.size`. A decimal is a rational as well
   (`Decimal.value`), and its digits and exponent say between which powers of ten it lies. -/
namespace Conform

/-! ## Decimals -/

namespace Decimal

def value (d : Decimal) : ℚ :=
  d.digits * 10 ^ d.exponent

/-- The power of ten above the leading digit. -/
def places (d : Decimal) : ℤ :=
  d.exponent + digitCount d.digits

theorem digitCount_pos (n : ℕ) : 0 < digitCount n :=
  Nat.length_toDigits_pos

theorem digitCount_le_iff {n k : ℕ} (hk : 0 < k) : digitCount n ≤ k ↔ n < 10 ^ k :=
  Nat.length_toDigits_le_iff (by decide) hk

theorem lt_pow_digitCount (n : ℕ) : n < 10 ^ digitCount n :=
  (digitCount_le_iff (digitCount_pos n)).1 le_rfl

theorem pow_digitCount_le {n : ℕ} (hn : n ≠ 0) : 10 ^ (digitCount n - 1) ≤ n := by
  by_contra h
  rw [not_le] at h
  rcases Nat.eq_zero_or_pos (digitCount n - 1) with hone | hpos
  · rw [hone, Nat.pow_zero] at h
    omega
  · have hle := (digitCount_le_iff hpos).2 h
    omega

theorem ten_zpow_pos (e : ℤ) : (0 : ℚ) < 10 ^ e :=
  zpow_pos (by norm_num) e

theorem ten_zpow_le {e e' : ℤ} (h : e ≤ e') : (10 : ℚ) ^ e ≤ 10 ^ e' :=
  zpow_le_zpow_right₀ (by norm_num) h

theorem value_nonneg (d : Decimal) : 0 ≤ d.value :=
  mul_nonneg (Nat.cast_nonneg _) (ten_zpow_pos _).le

theorem value_of_digits_eq_zero {d : Decimal} (h : d.digits = 0) : d.value = 0 := by
  rw [value, h, Nat.cast_zero, zero_mul]

theorem value_lt (d : Decimal) : d.value < 10 ^ d.places := by
  rw [value, places, add_comm, zpow_add₀ (by norm_num), zpow_natCast]
  exact mul_lt_mul_of_pos_right (by exact_mod_cast lt_pow_digitCount d.digits) (ten_zpow_pos _)

theorem le_value {d : Decimal} (h : d.digits ≠ 0) : 10 ^ (d.places - 1) ≤ d.value := by
  have hplaces : d.places - 1 = (digitCount d.digits - 1 : ℕ) + d.exponent := by
    have := digitCount_pos d.digits
    rw [places]
    omega
  rw [value, hplaces, zpow_add₀ (by norm_num), zpow_natCast]
  exact mul_le_mul_of_nonneg_right (by exact_mod_cast pow_digitCount_le h) (ten_zpow_pos _).le

theorem value_pow (n : ℕ) (e : ℤ) : (Decimal.mk (10 ^ n) e).value = 10 ^ (n + e) := by
  rw [value, zpow_add₀ (by norm_num), zpow_natCast]
  push_cast
  rfl

theorem value_eq_div (d : Decimal) :
    d.value = ((d.digits * 10 ^ d.exponent.toNat : ℕ) : ℚ) / (10 ^ (-d.exponent).toNat : ℕ) := by
  rw [value]
  rcases le_total 0 d.exponent with h | h
  · obtain ⟨n, hn⟩ := Int.eq_ofNat_of_zero_le h
    rw [hn, Int.toNat_natCast, Int.toNat_of_nonpos (by omega), pow_zero, Nat.cast_one, div_one, zpow_natCast]
    push_cast
    rfl
  · obtain ⟨n, hn⟩ := Int.eq_ofNat_of_zero_le (Int.neg_nonneg.2 h)
    rw [hn, Int.toNat_natCast, Int.toNat_of_nonpos h, pow_zero, mul_one, ← neg_neg d.exponent, hn, zpow_neg,
      zpow_natCast, ← div_eq_mul_inv]
    push_cast
    rfl

end Decimal

/-! ## Numbers -/

namespace Binary64

/-- The exact magnitude of a finite number. -/
def size (x : Binary64) : ℚ :=
  x.units / unitsPerOne

/-- The exact value of a finite number. -/
def value? (x : Binary64) : Option ℚ :=
  if x.isFinite then some (if x.isNegative then -x.size else x.size) else none

variable {x : Binary64} {q : ℚ}

theorem unitsPerOne_pos : 0 < unitsPerOne := by
  unfold unitsPerOne
  generalize 1074 = n
  exact Nat.two_pow_pos n

theorem cast_unitsPerOne_pos : (0 : ℚ) < unitsPerOne :=
  Nat.cast_pos.2 unitsPerOne_pos

theorem size_nonneg (x : Binary64) : 0 ≤ x.size :=
  div_nonneg (Nat.cast_nonneg _) (Nat.cast_nonneg _)

theorem value?_eq_some_iff :
    x.value? = some q ↔ x.isFinite = true ∧ q = if x.isNegative then -x.size else x.size := by
  rw [value?, Option.ite_none_right_eq_some, Option.some.injEq, eq_comm (a := q)]

theorem exists_value? (h : x.isFinite = true) : ∃ q, x.value? = some q :=
  ⟨_, value?_eq_some_iff.2 ⟨h, rfl⟩⟩

theorem abs_of_value? (h : x.value? = some q) : |q| = x.size := by
  obtain ⟨-, rfl⟩ := value?_eq_some_iff.1 h
  split
  · rw [abs_neg, abs_of_nonneg x.size_nonneg]
  · exact abs_of_nonneg x.size_nonneg

theorem isNaN_eq_false_iff : x.isNaN = false ↔ x.isFinite = true ∨ x.isInfinite = true := by
  rw [isNaN, decide_eq_false_iff_not, isFinite, decide_eq_true_eq, isInfinite, decide_eq_true_eq]
  omega

theorem isInfinite_of_isFinite (h : x.isFinite = true) : x.isInfinite = false := by
  rw [isFinite, decide_eq_true_eq] at h
  rw [isInfinite, decide_eq_false_iff_not]
  omega

theorem size_eq_natCast_iff {k : ℕ} : x.size = k ↔ x.units = k * unitsPerOne := by
  rw [size, div_eq_iff cast_unitsPerOne_pos.ne']
  exact_mod_cast Iff.rfl

end Binary64

end Conform

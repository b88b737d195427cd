import Conform.Proofs.Exact
import Conform.Binary64
/- Reading decimals. Reading rounds a quotient to 53 bits and puts its bits together. The bits of the magnitudes count up
   as the magnitudes do (`strictMono_unitsAt`), so that `NearestAt` can say which one is nearest to a rational by comparing
   with all others: at most one is (`NearestAt.unique`), and greater rationals have no lesser ones (`NearestAt.mono`). There
   is no greatest magnitude in this; those from that of infinity on stand for the rationals that are too great. What the
   quotient is rounded to is the nearest magnitude, as one step of the bits is one step of the quotient in the last place
   (`nearestAt_roundedAt`). So a decimal is read as a finite number exactly if that is the nearest (`ofDecimal_eq_iff`). -/
namespace Conform

namespace Binary64

/-! ## Magnitudes in order -/

def unitsAt (m : ℕ) : ℕ :=
  if m / 2 ^ 52 = 0 then m % 2 ^ 52 else (2 ^ 52 + m % 2 ^ 52) * 2 ^ (m / 2 ^ 52 - 1)

theorem units_eq_unitsAt (x : Binary64) : x.units = unitsAt x.magnitude := by
  rw [units, exponentField, fraction, unitsAt]
  simp only [Nat.pow_eq]

/-- A significand and a power of two stand for one magnitude, also where the significand is the least beyond 53 bits. -/
theorem unitsAt_add {k r : ℕ} (hr : r ≤ 2 ^ 53) (hnormal : k = 0 ∨ 2 ^ 52 ≤ r) :
    unitsAt (k * 2 ^ 52 + r) = r * 2 ^ k := by
  rw [unitsAt]
  rcases Nat.lt_or_ge r (2 ^ 52) with h | h
  · obtain rfl : k = 0 := by omega
    rw [if_pos (by omega), Nat.zero_mul, Nat.zero_add, Nat.mod_eq_of_lt h, Nat.pow_zero, Nat.mul_one]
  · rcases Nat.lt_or_eq_of_le hr with h' | rfl
    · have hdiv : (k * 2 ^ 52 + r) / 2 ^ 52 = k + 1 := by omega
      have hmod : (k * 2 ^ 52 + r) % 2 ^ 52 = r - 2 ^ 52 := by omega
      rw [hdiv, hmod, if_neg (by omega), Nat.add_sub_cancel, Nat.add_sub_cancel' h]
    · have hdiv : (k * 2 ^ 52 + 2 ^ 53) / 2 ^ 52 = k + 2 := by omega
      have hmod : (k * 2 ^ 52 + 2 ^ 53) % 2 ^ 52 = 0 := by omega
      rw [hdiv, hmod, if_neg (by omega), Nat.add_zero, Nat.add_sub_assoc (by decide), Nat.pow_succ' (n := k)]
      ring

theorem exists_significand (m : ℕ) : ∃ k r, m = k * 2 ^ 52 + r ∧ r < 2 ^ 53 ∧ (k = 0 ∨ 2 ^ 52 ≤ r) := by
  rcases Nat.lt_or_ge m (2 ^ 53) with h | h
  · exact ⟨0, m, by omega, h, .inl rfl⟩
  · exact ⟨m / 2 ^ 52 - 1, m % 2 ^ 52 + 2 ^ 52, by omega, by omega, .inr (by omega)⟩

theorem unitsAt_succ {k r : ℕ} (hr : r < 2 ^ 53) (hnormal : k = 0 ∨ 2 ^ 52 ≤ r) :
    unitsAt (k * 2 ^ 52 + r + 1) = r * 2 ^ k + 2 ^ k := by
  rw [Nat.add_assoc, unitsAt_add hr (by omega), Nat.succ_mul]

theorem strictMono_unitsAt : StrictMono unitsAt := by
  refine strictMono_nat_of_lt_succ fun m => ?_
  obtain ⟨k, r, rfl, hr, hnormal⟩ := exists_significand m
  rw [unitsAt_succ hr hnormal, unitsAt_add hr.le hnormal]
  exact Nat.lt_add_of_pos_right (Nat.two_pow_pos k)

/-! ## The nearest magnitude -/

/-- The exact magnitude with these bits. It goes on beyond the finite numbers: for the bits of infinity it is `2 ^ 1024`. -/
def sizeAt (m : ℕ) : ℚ :=
  unitsAt m / unitsPerOne

/-- Of all magnitudes, the one with these bits is nearest to a rational: every other one is farther off, or as far and then
    the bits are even. -/
def NearestAt (q : ℚ) (m : ℕ) : Prop :=
  ∀ m', m' ≠ m → |q - sizeAt m| < |q - sizeAt m'| ∨ (|q - sizeAt m| = |q - sizeAt m'| ∧ Even m)

theorem size_eq_sizeAt (x : Binary64) : x.size = sizeAt x.magnitude := by
  rw [size, units_eq_unitsAt, sizeAt]

theorem strictMono_sizeAt : StrictMono sizeAt := fun _ _ h =>
  div_lt_div_of_pos_right (Nat.cast_lt.2 (strictMono_unitsAt h)) cast_unitsPerOne_pos

theorem nearestAt_sizeAt (m : ℕ) : NearestAt (sizeAt m) m := by
  intro m' hne
  left
  rw [sub_self, abs_zero, abs_pos, sub_ne_zero]
  exact strictMono_sizeAt.injective.ne hne.symm

theorem nearestAt_of_lower {q : ℚ} {m : ℕ} (hlow : sizeAt m ≤ q)
    (h : q - sizeAt m < sizeAt (m + 1) - q ∨ (q - sizeAt m = sizeAt (m + 1) - q ∧ Even m)) : NearestAt q m := by
  intro m' hne
  rw [abs_of_nonneg (sub_nonneg.2 hlow)]
  rcases lt_or_gt_of_ne hne with hlt | hgt
  · have hbelow : sizeAt m' < sizeAt m := strictMono_sizeAt hlt
    rw [abs_of_nonneg (by linarith)]
    exact .inl (by linarith)
  · have habove : sizeAt (m + 1) ≤ sizeAt m' := strictMono_sizeAt.monotone hgt
    have hq : q ≤ sizeAt m' := by rcases h with h | h <;> linarith
    rw [abs_sub_comm, abs_of_nonneg (sub_nonneg.2 hq)]
    rcases h with h | ⟨h, heven⟩
    · exact .inl (by linarith)
    · rcases habove.lt_or_eq with habove | habove
      · exact .inl (by linarith)
      · exact .inr ⟨by linarith, heven⟩

theorem nearestAt_of_upper {q : ℚ} {m : ℕ} (hhigh : q ≤ sizeAt (m + 1))
    (h : sizeAt (m + 1) - q < q - sizeAt m ∨ (sizeAt (m + 1) - q = q - sizeAt m ∧ Even (m + 1))) :
    NearestAt q (m + 1) := by
  intro m' hne
  rw [abs_sub_comm, abs_of_nonneg (sub_nonneg.2 hhigh)]
  rcases lt_or_gt_of_ne hne with hlt | hgt
  · have hbelow : sizeAt m' ≤ sizeAt m := strictMono_sizeAt.monotone (Nat.lt_succ_iff.1 hlt)
    have hq : sizeAt m' ≤ q := by rcases h with h | h <;> linarith
    rw [abs_of_nonneg (sub_nonneg.2 hq)]
    rcases h with h | ⟨h, heven⟩
    · exact .inl (by linarith)
    · rcases hbelow.lt_or_eq with hbelow | hbelow
      · exact .inl (by linarith)
      · exact .inr ⟨by linarith, heven⟩
  · have habove : sizeAt (m + 1) < sizeAt m' := strictMono_sizeAt hgt
    rw [abs_sub_comm, abs_of_nonneg (by linarith)]
    exact .inl (by linarith)

section
variable {q q' : ℚ} {m m' : ℕ}

theorem NearestAt.le (h : NearestAt q m) (m' : ℕ) : |q - sizeAt m| ≤ |q - sizeAt m'| := by
  rcases eq_or_ne m' m with rfl | hne
  · exact le_rfl
  · rcases h m' hne with h | h
    · exact h.le
    · exact h.1.le

/-- A rational that is not nearer to the greater of two magnitudes is not above the middle between them. -/
theorem two_mul_le_of_abs_le (hlt : m < m') (h : |q - sizeAt m| ≤ |q - sizeAt m'|) :
    2 * q ≤ sizeAt m + sizeAt m' := by
  have hsize := strictMono_sizeAt hlt
  rcases abs_cases (q - sizeAt m) with ⟨h1, h1'⟩ | ⟨h1, h1'⟩ <;>
    rcases abs_cases (q - sizeAt m') with ⟨h2, h2'⟩ | ⟨h2, h2'⟩ <;> linarith

theorem le_two_mul_of_abs_le (hlt : m < m') (h : |q - sizeAt m'| ≤ |q - sizeAt m|) :
    sizeAt m + sizeAt m' ≤ 2 * q := by
  have hsize := strictMono_sizeAt hlt
  rcases abs_cases (q - sizeAt m) with ⟨h1, h1'⟩ | ⟨h1, h1'⟩ <;>
    rcases abs_cases (q - sizeAt m') with ⟨h2, h2'⟩ | ⟨h2, h2'⟩ <;> linarith

/-- Two magnitudes next to each other are not both even, and between two others there is a nearer one. -/
theorem NearestAt.not_below (h : NearestAt q m) (h' : NearestAt q m') : ¬ m < m' := by
  intro hlt
  have hmiddle : 2 * q = sizeAt m + sizeAt m' :=
    le_antisymm (two_mul_le_of_abs_le hlt (h.le m')) (le_two_mul_of_abs_le hlt (h'.le m))
  have heven : Even m := ((h m' hlt.ne').resolve_left (not_lt.2 (h'.le m))).2
  have heven' : Even m' := ((h' m hlt.ne).resolve_left (not_lt.2 (h.le m'))).2
  have hnext : m + 1 < m' := by
    rcases Nat.lt_or_eq_of_le (Nat.succ_le_of_lt hlt) with h | rfl
    · exact h
    · exact absurd heven' (Nat.not_even_iff_odd.2 heven.add_one)
  have hlow := strictMono_sizeAt (Nat.lt_succ_self m)
  have hhigh := strictMono_sizeAt hnext
  have hbetween := le_two_mul_of_abs_le hlt (h'.le m)
  have hnear := two_mul_le_of_abs_le (Nat.lt_succ_self m) (h.le (m + 1))
  linarith

theorem NearestAt.unique (h : NearestAt q m) (h' : NearestAt q m') : m = m' :=
  le_antisymm (not_lt.1 (h'.not_below h)) (not_lt.1 (h.not_below h'))

theorem NearestAt.mono (h : NearestAt q m) (h' : NearestAt q' m') (hq : q ≤ q') : m ≤ m' := by
  by_contra hlt
  rw [not_le] at hlt
  -- the two rationals would be one, in the middle between the magnitudes
  have hhigh := le_two_mul_of_abs_le hlt (h.le m')
  have hlow := two_mul_le_of_abs_le hlt (h'.le m)
  obtain rfl : q = q' := by linarith
  exact hlt.ne (h'.unique h)

theorem NearestAt.lt (h : NearestAt q m) (h' : NearestAt q' m') (hlt : m < m') : q < q' :=
  not_le.1 fun hq => hlt.not_ge (h'.mono h hq)

end

/-! ## Rounding -/

/-- The rounded quotient is the quotient if the rest is less than half of the divisor, and the next one if it is more; of a
    half, it is the even one of the two. -/
theorem divToEven_cases (num den : ℕ) :
    (divToEven num den = num / den ∧ (2 * (num % den) < den ∨ (2 * (num % den) = den ∧ Even (num / den)))) ∨
    (divToEven num den = num / den + 1 ∧
      (den < 2 * (num % den) ∨ (2 * (num % den) = den ∧ Even (num / den + 1)))) := by
  simp only [divToEven, Nat.even_iff]
  split_ifs with hless hmore heven
  · exact .inl ⟨rfl, .inl hless⟩
  · exact .inr ⟨rfl, .inl hmore⟩
  · exact .inl ⟨rfl, .inr ⟨by omega, heven⟩⟩
  · exact .inr ⟨rfl, .inr ⟨by omega, by omega⟩⟩

/-- The power of two that leaves 53 bits of a quotient, or none if it has no more. -/
def shiftOf (quotient : ℕ) : ℕ :=
  quotient.log2 + 1 - 53

theorem div_shiftOf_lt (quotient : ℕ) : quotient / 2 ^ shiftOf quotient < 2 ^ 53 := by
  rw [Nat.div_lt_iff_lt_mul (Nat.two_pow_pos _), ← Nat.pow_add]
  refine Nat.lt_log2_self.trans_le (Nat.pow_le_pow_right (by decide) ?_)
  rw [shiftOf]
  omega

theorem le_div_shiftOf {quotient : ℕ} (h : shiftOf quotient ≠ 0) : 2 ^ 52 ≤ quotient / 2 ^ shiftOf quotient := by
  have hlog : 52 + shiftOf quotient = quotient.log2 := by rw [shiftOf] at h ⊢; omega
  have hne : quotient ≠ 0 := by
    rintro rfl
    exact h rfl
  rw [Nat.le_div_iff_mul_le (Nat.two_pow_pos _), ← Nat.pow_add, hlog]
  exact Nat.log2_self_le hne

/-- The magnitude that a quotient of units is rounded to, as if there were no greatest finite number. -/
def roundedAt (num den : ℕ) : ℕ :=
  let shift := shiftOf (num / den)
  shift * 2 ^ 52 + divToEven num (den * 2 ^ shift)

theorem nearestMagnitude_eq (num den : ℕ) :
    nearestMagnitude num den = min (roundedAt (num * unitsPerOne) den) infinityMagnitude := by
  rw [nearestMagnitude, roundedAt, shiftOf]
  simp only [Nat.pow_eq]

/-- A rational between two magnitudes next to each other belongs to the lower one if it has gone less than half of the step, and
    to the upper one if it has gone more. -/
theorem nearestAt_of_step {q c : ℚ} {m rest step : ℕ} (hc : 0 < c) (hrest : rest ≤ step)
    (hlow : q - sizeAt m = rest / c) (hhigh : sizeAt (m + 1) - q = (step - rest) / c) :
    (2 * rest < step ∨ (2 * rest = step ∧ Even m) → NearestAt q m) ∧
    (step < 2 * rest ∨ (2 * rest = step ∧ Even (m + 1)) → NearestAt q (m + 1)) := by
  have hrestq : (rest : ℚ) ≤ step := Nat.cast_le.2 hrest
  have habove : 0 ≤ q - sizeAt m := by
    rw [hlow]
    positivity
  have hbelow : 0 ≤ sizeAt (m + 1) - q := by
    rw [hhigh]
    exact div_nonneg (sub_nonneg.2 hrestq) hc.le
  have hhalf (heq : 2 * rest = step) : q - sizeAt m = sizeAt (m + 1) - q := by
    rw [hlow, hhigh, ← heq]
    push_cast
    ring
  constructor
  · refine fun h => nearestAt_of_lower (sub_nonneg.1 habove) (h.imp (fun h => ?_) fun h => ⟨hhalf h.1, h.2⟩)
    have hless : (2 * rest : ℚ) < step := by exact_mod_cast h
    rw [hlow, hhigh]
    exact div_lt_div_of_pos_right (by linarith) hc
  · refine fun h => nearestAt_of_upper (sub_nonneg.1 hbelow) (h.imp (fun h => ?_) fun h => ⟨(hhalf h.1).symm, h.2⟩)
    have hmore : (step : ℚ) < 2 * rest := by exact_mod_cast h
    rw [hlow, hhigh]
    exact div_lt_div_of_pos_right (by linarith) hc

section
variable {k f den : ℕ} (hden : 0 < den) (hf : f < 2 ^ 53) (hnormal : k = 0 ∨ 2 ^ 52 ≤ f) (rest : ℕ)
include hden hf hnormal

theorem sub_sizeAt :
    ((den * 2 ^ k * f + rest : ℕ) : ℚ) / den / unitsPerOne - sizeAt (k * 2 ^ 52 + f) = rest / (den * unitsPerOne) := by
  have hdenq : (den : ℚ) ≠ 0 := Nat.cast_ne_zero.2 hden.ne'
  have hunits := cast_unitsPerOne_pos.ne'
  rw [sizeAt, unitsAt_add hf.le hnormal]
  push_cast
  field_simp
  ring

theorem sizeAt_sub :
    sizeAt (k * 2 ^ 52 + f + 1) - ((den * 2 ^ k * f + rest : ℕ) : ℚ) / den / unitsPerOne =
      ((den * 2 ^ k : ℕ) - rest) / (den * unitsPerOne) := by
  have hdenq : (den : ℚ) ≠ 0 := Nat.cast_ne_zero.2 hden.ne'
  have hunits := cast_unitsPerOne_pos.ne'
  rw [sizeAt, unitsAt_succ hf hnormal]
  push_cast
  field_simp
  ring

end

/-- What a quotient of units is rounded to is nearest to it. -/
theorem nearestAt_roundedAt (num : ℕ) {den : ℕ} (hden : 0 < den) :
    NearestAt ((num : ℚ) / den / unitsPerOne) (roundedAt num den) := by
  rw [roundedAt]
  generalize hk : shiftOf (num / den) = k
  have hdiv : num / (den * 2 ^ k) = num / den / 2 ^ k := (Nat.div_div_eq_div_mul ..).symm
  have hlt : num / (den * 2 ^ k) < 2 ^ 53 := by
    rw [hdiv, ← hk]
    exact div_shiftOf_lt _
  have hnormal : k = 0 ∨ 2 ^ 52 ≤ num / (den * 2 ^ k) := by
    rcases Nat.eq_zero_or_pos k with h | h
    · exact .inl h
    · rw [← hk] at h hdiv ⊢
      exact .inr (hdiv ▸ le_div_shiftOf h.ne')
  have hscale : (0 : ℚ) < den * unitsPerOne := mul_pos (Nat.cast_pos.2 hden) cast_unitsPerOne_pos
  have hrest : num % (den * 2 ^ k) < den * 2 ^ k := Nat.mod_lt _ (Nat.mul_pos hden (Nat.two_pow_pos k))
  have hlow := sub_sizeAt hden hlt hnormal (num % (den * 2 ^ k))
  have hhigh := sizeAt_sub hden hlt hnormal (num % (den * 2 ^ k))
  rw [Nat.div_add_mod] at hlow hhigh
  obtain ⟨hlower, hupper⟩ := nearestAt_of_step hscale hrest.le hlow hhigh
  have heven (r : ℕ) : Even (k * 2 ^ 52 + r) ↔ Even r := by
    rw [Nat.even_iff, Nat.even_iff]
    omega
  rw [heven] at hlower
  rw [Nat.add_assoc, heven] at hupper
  rcases divToEven_cases num (den * 2 ^ k) with ⟨heq, h⟩ | ⟨heq, h⟩
  · rw [heq]
    exact hlower h
  · rw [heq]
    exact hupper h

/-! ## Signs and magnitudes -/

theorem toNat_ofMagnitude {negative : Bool} {m : ℕ} (h : m < 2 ^ 63) :
    (ofMagnitude negative m).bits.toNat = m + if negative then 2 ^ 63 else 0 := by
  rw [ofMagnitude, UInt64.toNat_ofNat']
  simp only [Nat.pow_eq]
  exact Nat.mod_eq_of_lt (by split <;> omega)

theorem magnitude_ofMagnitude {negative : Bool} {m : ℕ} (h : m < 2 ^ 63) : (ofMagnitude negative m).magnitude = m := by
  rw [magnitude, toNat_ofMagnitude h]
  simp only [Nat.pow_eq]
  split <;> omega

theorem isNegative_ofMagnitude {negative : Bool} {m : ℕ} (h : m < 2 ^ 63) :
    (ofMagnitude negative m).isNegative = negative := by
  rw [isNegative, toNat_ofMagnitude h]
  simp only [Nat.pow_eq]
  cases negative <;> simp <;> omega

theorem eq_iff {x y : Binary64} : x = y ↔ x.isNegative = y.isNegative ∧ x.magnitude = y.magnitude := by
  constructor
  · rintro rfl
    exact ⟨rfl, rfl⟩
  · rintro ⟨hsign, hmagnitude⟩
    have hx : x.bits.toNat < 2 ^ 64 := x.bits.toNat_lt
    have hy : y.bits.toNat < 2 ^ 64 := y.bits.toNat_lt
    rw [isNegative, isNegative, decide_eq_decide] at hsign
    simp only [magnitude, Nat.pow_eq] at hsign hmagnitude
    have hbits : x.bits = y.bits := UInt64.toNat_inj.1 (by omega)
    cases x
    cases y
    exact congrArg mk hbits

/-! ## Decimals -/

theorem unitsAt_infinityMagnitude_le : unitsAt infinityMagnitude ≤ 10 ^ 310 * unitsPerOne := by decide +kernel

theorem two_mul_unitsPerOne_lt : 2 * unitsPerOne < 10 ^ 330 := by decide +kernel

theorem infinityMagnitude_lt : infinityMagnitude < 2 ^ 63 := by decide

open Decimal (ten_zpow_pos ten_zpow_le)

theorem nearestAt_value (d : Decimal) :
    NearestAt d.value (roundedAt (d.digits * 10 ^ d.exponent.toNat * unitsPerOne) (10 ^ (-d.exponent).toNat)) := by
  have h := nearestAt_roundedAt (d.digits * 10 ^ d.exponent.toNat * unitsPerOne)
    (Nat.pow_pos (n := (-d.exponent).toNat) (by decide : 0 < 10))
  rwa [Nat.cast_mul, div_right_comm, mul_div_cancel_right₀ _ cast_unitsPerOne_pos.ne', ← Decimal.value_eq_div] at h

theorem infinityMagnitude_le_of_places {d : Decimal} (hdigits : d.digits ≠ 0) (h : 310 < d.places) {m : ℕ}
    (hm : NearestAt d.value m) : infinityMagnitude ≤ m := by
  refine (nearestAt_sizeAt infinityMagnitude).mono hm ?_
  have hunits : (unitsAt infinityMagnitude : ℚ) ≤ 10 ^ 310 * unitsPerOne := by
    exact_mod_cast unitsAt_infinityMagnitude_le
  calc sizeAt infinityMagnitude ≤ 10 ^ 310 := by rwa [sizeAt, div_le_iff₀ cast_unitsPerOne_pos]
    _ = 10 ^ (310 : ℤ) := (zpow_natCast 10 310).symm
    _ ≤ 10 ^ (d.places - 1) := ten_zpow_le (by omega)
    _ ≤ d.value := Decimal.le_value hdigits

theorem sizeAt_zero : sizeAt 0 = 0 := by
  have hunits : unitsAt 0 = 0 := by decide
  rw [sizeAt, hunits, Nat.cast_zero, zero_div]

theorem sizeAt_one : sizeAt 1 = 1 / unitsPerOne := by
  have hunits : unitsAt 1 = 1 := by decide
  rw [sizeAt, hunits, Nat.cast_one]

theorem nearestAt_zero_of_places {d : Decimal} (h : d.places < -330) : NearestAt d.value 0 := by
  have hvalue : d.value < 10 ^ (-330 : ℤ) := d.value_lt.trans_le (ten_zpow_le (by omega))
  have hunits : (2 * unitsPerOne : ℚ) < 10 ^ (330 : ℤ) := by
    rw [zpow_ofNat]
    exact_mod_cast two_mul_unitsPerOne_lt
  have hhalf : d.value * (2 * unitsPerOne) < 1 := by
    calc d.value * (2 * unitsPerOne) < 10 ^ (-330 : ℤ) * 10 ^ (330 : ℤ) :=
          mul_lt_mul'' hvalue hunits d.value_nonneg (mul_pos two_pos cast_unitsPerOne_pos).le
      _ = 1 := by rw [← zpow_add₀ (by norm_num), neg_add_cancel, zpow_zero]
  refine nearestAt_of_lower (by rw [sizeAt_zero]; exact d.value_nonneg) (.inl ?_)
  rw [sizeAt_zero, Nat.zero_add, sizeAt_one, sub_zero, lt_sub_iff_add_lt, lt_div_iff₀ cast_unitsPerOne_pos]
  linarith

/-- Reading a decimal gives the number nearest to it; the numbers too great to be finite are all infinite. -/
theorem ofDecimal_eq (negative : Bool) (d : Decimal) :
    ∃ m, NearestAt d.value m ∧ ofDecimal negative d = ofMagnitude negative (min m infinityMagnitude) := by
  by_cases hzero : d.digits = 0 ∨ d.exponent + Decimal.digitCount d.digits < -330
  · refine ⟨0, ?_, ?_⟩
    · rcases hzero with hzero | hsmall
      · rw [Decimal.value_of_digits_eq_zero hzero, ← sizeAt_zero]
        exact nearestAt_sizeAt 0
      · exact nearestAt_zero_of_places hsmall
    · simp only [ofDecimal, if_pos hzero, Nat.zero_min]
  · obtain ⟨hdigits, -⟩ := not_or.1 hzero
    refine ⟨_, nearestAt_value d, ?_⟩
    by_cases hgreat : 310 < d.exponent + Decimal.digitCount d.digits
    · rw [min_eq_right (infinityMagnitude_le_of_places hdigits hgreat (nearestAt_value d))]
      simp only [ofDecimal, if_neg hzero, if_pos hgreat]
    · simp only [ofDecimal, if_neg hzero, if_neg hgreat, nearestMagnitude_eq, Nat.pow_eq]

theorem isNegative_ofDecimal (negative : Bool) (d : Decimal) : (ofDecimal negative d).isNegative = negative := by
  obtain ⟨m, -, hread⟩ := ofDecimal_eq negative d
  rw [hread, isNegative_ofMagnitude ((min_le_right _ _).trans_lt infinityMagnitude_lt)]

theorem magnitude_ofDecimal_eq_iff {negative : Bool} {d : Decimal} {m : ℕ} (h : m < infinityMagnitude) :
    (ofDecimal negative d).magnitude = m ↔ NearestAt d.value m := by
  obtain ⟨m', hm', hread⟩ := ofDecimal_eq negative d
  have hmin : min m' infinityMagnitude = m ↔ m' = m := by omega
  rw [hread, magnitude_ofMagnitude ((min_le_right _ _).trans_lt infinityMagnitude_lt), hmin]
  exact ⟨fun heq => heq ▸ hm', fun hm => hm'.unique hm⟩

/-- A decimal is read as a finite number exactly if it is nearest to it, and has its sign. -/
theorem ofDecimal_eq_iff {x : Binary64} (hx : x.isFinite = true) {negative : Bool} {d : Decimal} :
    ofDecimal negative d = x ↔ negative = x.isNegative ∧ NearestAt d.value x.magnitude := by
  rw [eq_iff, isNegative_ofDecimal, magnitude_ofDecimal_eq_iff (of_decide_eq_true hx)]

theorem nearestAt_ofDecimal {negative : Bool} {d : Decimal} (h : (ofDecimal negative d).isFinite = true) :
    NearestAt d.value (ofDecimal negative d).magnitude :=
  (magnitude_ofDecimal_eq_iff (of_decide_eq_true h)).1 rfl

end Binary64

end Conform

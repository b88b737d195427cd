import Conform.Proofs.Rounding
import Conform.Binary64
/- The shortest decimal reads back. It is searched on grids of multiples of powers of ten, and only the two neighbours of the
   number are tried on each. That is enough: what reads back is an interval (`NearestAt.between`), so if any multiple reads
   back one of the neighbours does (`neighbour_of_multiple`). A decimal of so many digits that reads back need not be a
   multiple on the grid of as many digits, but then a power of ten stands between it and the number
   (`readsOn_digitCount`). With seventeen digits there is always a hit, as the grid is finer than the numbers are
   (`readsOn_seventeen`). So what is found reads back (`nearestAt_shortest`) and has the fewest digits that do
   (`digitCount_shortest_le`). -/
namespace Conform

namespace Decimal

/-! ## Trailing zeros -/

theorem value_dropZeros (fuel : ℕ) (d : Decimal) : (dropZeros fuel d).value = d.value := by
  induction fuel generalizing d with
  | zero => rfl
  | succ fuel ih =>
    rw [dropZeros]
    split
    · next hzero =>
      have hdigits : d.digits = 10 * (d.digits / 10) := by omega
      rw [ih, value, value, hdigits, Nat.mul_div_cancel_left _ (by decide), zpow_add₀ (by norm_num), zpow_one]
      push_cast
      ring
    · rfl

theorem value_normalize (d : Decimal) : d.normalize.value = d.value := by
  rw [normalize]
  split
  · rfl
  · exact value_dropZeros _ d

theorem digits_dropZeros_le (fuel : ℕ) (d : Decimal) : (dropZeros fuel d).digits ≤ d.digits := by
  induction fuel generalizing d with
  | zero => exact le_rfl
  | succ fuel ih =>
    rw [dropZeros]
    split
    · exact (ih _).trans (Nat.div_le_self _ _)
    · exact le_rfl

theorem dropZeros_mod_ten {fuel : ℕ} {d : Decimal} (hne : d.digits ≠ 0) (hfuel : d.digits < 10 ^ fuel) :
    (dropZeros fuel d).digits % 10 ≠ 0 := by
  induction fuel generalizing d with
  | zero => omega
  | succ fuel ih =>
    rw [dropZeros]
    split
    · refine ih ?_ ?_
      · show d.digits / 10 ≠ 0
        omega
      · show d.digits / 10 < 10 ^ fuel
        rw [Nat.pow_succ] at hfuel
        omega
    · assumption

/-- Without trailing zeros, the digits up to a power of ten are fewer than its zeros. -/
theorem digitCount_normalize_le {d : Decimal} {k : ℕ} (hk : 0 < k) (h : d.digits ≤ 10 ^ k) :
    digitCount d.normalize.digits ≤ k := by
  rw [digitCount_le_iff hk, normalize]
  split
  · next hzero =>
    rw [hzero]
    exact Nat.pow_pos (by decide)
  · next hne =>
    have hmod := dropZeros_mod_ten hne (lt_pow_digitCount d.digits)
    refine lt_of_le_of_ne ((digits_dropZeros_le _ d).trans h) fun heq => hmod ?_
    obtain ⟨k, rfl⟩ := Nat.exists_eq_succ_of_ne_zero hk.ne'
    rw [heq, Nat.pow_succ]
    exact Nat.mul_mod_left _ _

end Decimal

namespace Binary64
open Decimal (ten_zpow_pos ten_zpow_le digitCount)

theorem readsBack_iff {x : Binary64} (hx : x.isFinite = true) (d : Decimal) :
    x.readsBack d = true ↔ NearestAt d.value x.magnitude := by
  rw [readsBack, decide_eq_true_eq, magnitude_ofDecimal_eq_iff (of_decide_eq_true hx)]

theorem value_exactDecimal (x : Binary64) : x.exactDecimal.value = x.size := by
  have hexponent : (-1074 : ℤ) = -((1074 : ℕ) : ℤ) := rfl
  unfold exactDecimal Decimal.value size unitsPerOne
  rw [hexponent]
  generalize 1074 = n
  have hten : (10 : ℚ) ^ n = 2 ^ n * 5 ^ n := by
    rw [← mul_pow]
    norm_num
  simp only [Nat.pow_eq]
  rw [zpow_neg, zpow_natCast, hten]
  push_cast
  field_simp

/-! ## Grids -/

theorem ten_zpow_eq_div (e : ℤ) : (10 : ℚ) ^ e = 10 ^ e.toNat / 10 ^ (-e).toNat := by
  simpa [Decimal.value] using Decimal.value_eq_div ⟨1, e⟩

theorem gridFloor_eq (x : Binary64) (e : ℤ) : x.gridFloor e = ⌊x.size / 10 ^ e⌋₊ := by
  have hunits := cast_unitsPerOne_pos
  rw [gridFloor, ← Nat.floor_div_eq_div (K := ℚ), size, ten_zpow_eq_div]
  generalize unitsPerOne = u at *
  congr 1
  simp only [Nat.pow_eq]
  push_cast
  field_simp

theorem gridFloor_le (x : Binary64) (e : ℤ) : x.gridFloor e * 10 ^ e ≤ x.size := by
  rw [gridFloor_eq, ← le_div_iff₀ (ten_zpow_pos e)]
  exact Nat.floor_le (div_nonneg x.size_nonneg (ten_zpow_pos e).le)

theorem lt_gridFloor (x : Binary64) (e : ℤ) : x.size < (x.gridFloor e + 1 : ℕ) * 10 ^ e := by
  rw [gridFloor_eq, ← div_lt_iff₀ (ten_zpow_pos e)]
  exact_mod_cast Nat.lt_floor_add_one _

theorem unitsPerOne_le : unitsPerOne ≤ 10 ^ 400 := by decide +kernel

/-- The digits of a magnitude times a power of ten, without what is behind the point, place the magnitude itself. -/
theorem size_between {x : Binary64} {n : ℕ} (hone : 1 ≤ ⌊x.size * 10 ^ n⌋₊) :
    (10 : ℚ) ^ ((digitCount ⌊x.size * 10 ^ n⌋₊ : ℤ) - n - 1) ≤ x.size ∧
      x.size < 10 ^ ((digitCount ⌊x.size * 10 ^ n⌋₊ : ℤ) - n) := by
  have hscaled : 0 ≤ x.size * 10 ^ n := mul_nonneg x.size_nonneg (by positivity)
  have hlow : ((10 ^ (digitCount ⌊x.size * 10 ^ n⌋₊ - 1) : ℕ) : ℚ) ≤ x.size * 10 ^ n :=
    (Nat.le_floor_iff hscaled).1 (Decimal.pow_digitCount_le (Nat.one_le_iff_ne_zero.1 hone))
  have hhigh : x.size * 10 ^ n < (10 ^ digitCount ⌊x.size * 10 ^ n⌋₊ : ℕ) :=
    (Nat.floor_lt hscaled).1 (Decimal.lt_pow_digitCount _)
  have hpos := Decimal.digitCount_pos ⌊x.size * 10 ^ n⌋₊
  generalize digitCount ⌊x.size * 10 ^ n⌋₊ = count at *
  have hscale (k : ℕ) : (10 : ℚ) ^ ((k : ℤ) - n) = (10 ^ k : ℕ) / 10 ^ n := by
    rw [zpow_sub₀ (by norm_num), zpow_natCast, zpow_natCast]
    push_cast
    rfl
  have hprevious : (count : ℤ) - n - 1 = (count - 1 : ℕ) - n := by omega
  rw [hprevious, hscale, hscale, div_le_iff₀ (by positivity), lt_div_iff₀ (by positivity)]
  exact ⟨hlow, hhigh⟩

theorem floor_size_mul (x : Binary64) (n : ℕ) : ⌊x.size * 10 ^ n⌋₊ = x.units * Nat.pow 10 n / unitsPerOne := by
  rw [← Nat.floor_div_eq_div (K := ℚ), size, div_mul_eq_mul_div, Nat.pow_eq]
  push_cast
  rfl

theorem size_between_places {x : Binary64} (hne : x.units ≠ 0) :
    (10 : ℚ) ^ (x.decimalPlaces - 1) ≤ x.size ∧ x.size < 10 ^ x.decimalPlaces := by
  have hone : 1 ≤ ⌊x.size * 10 ^ 400⌋₊ := by
    rw [Nat.one_le_floor_iff, size, div_mul_eq_mul_div, one_le_div cast_unitsPerOne_pos]
    exact_mod_cast unitsPerOne_le.trans (Nat.le_mul_of_pos_left _ (Nat.pos_of_ne_zero hne))
  have hcast : (400 : ℤ) = (400 : ℕ) := rfl
  unfold decimalPlaces
  rw [hcast]
  generalize 400 = n at *
  rw [← floor_size_mul]
  exact size_between hone

/-- What is taken on a grid is one of the neighbours that read back, and one is taken if there is any. -/
theorem onGrid?_spec (tie : Tie) (x : Binary64) (e : ℤ) :
    match x.onGrid? tie e with
    | some d => x.readsBack d = true ∧ (d = ⟨x.gridFloor e, e⟩ ∨ d = ⟨x.gridFloor e + 1, e⟩)
    | none => x.readsBack ⟨x.gridFloor e, e⟩ = false ∧ x.readsBack ⟨x.gridFloor e + 1, e⟩ = false := by
  unfold onGrid?
  dsimp only
  generalize Decimal.mk (x.gridFloor e) e = below
  generalize Decimal.mk (x.gridFloor e + 1) e = above
  cases hbelow : x.readsBack below <;> cases habove : x.readsBack above
  · exact ⟨rfl, rfl⟩
  · exact ⟨habove, .inr rfl⟩
  · exact ⟨hbelow, .inl rfl⟩
  · generalize x.compareMiddle (x.gridFloor e) e = order
    dsimp only
    cases order with
    | lt => exact ⟨hbelow, .inl rfl⟩
    | gt => exact ⟨habove, .inr rfl⟩
    | eq =>
      cases tie with
      | awayFromZero => exact ⟨habove, .inr rfl⟩
      | toEven =>
        dsimp only
        split
        · exact ⟨hbelow, .inl rfl⟩
        · exact ⟨habove, .inr rfl⟩

theorem nearestAt_size (x : Binary64) : NearestAt x.size x.magnitude := by
  rw [size_eq_sizeAt]
  exact nearestAt_sizeAt _

theorem NearestAt.between {q q' : ℚ} {m : ℕ} (h : NearestAt q m) (h' : NearestAt q' m) {d : Decimal} (hlow : q ≤ d.value)
    (hhigh : d.value ≤ q') : NearestAt d.value m := by
  have hd := nearestAt_value d
  exact le_antisymm (h.mono hd hlow) (hd.mono h' hhigh) ▸ hd

section
variable {x : Binary64} {e : ℤ}

/-- If a multiple of a power of ten reads back, so does one of the two multiples next to the number. -/
theorem neighbour_of_multiple {c : ℕ} (h : NearestAt (Decimal.mk c e).value x.magnitude) :
    NearestAt (Decimal.mk (x.gridFloor e) e).value x.magnitude ∨
      NearestAt (Decimal.mk (x.gridFloor e + 1) e).value x.magnitude := by
  have hscale {a b : ℕ} (hab : a ≤ b) : (Decimal.mk a e).value ≤ (Decimal.mk b e).value :=
    mul_le_mul_of_nonneg_right (Nat.cast_le.2 hab) (ten_zpow_pos e).le
  rcases Nat.lt_or_ge (x.gridFloor e) c with hc | hc
  · exact .inr (x.nearestAt_size.between h (x.lt_gridFloor e).le (hscale hc))
  · exact .inl (h.between x.nearestAt_size (hscale hc) (x.gridFloor_le e))

variable {tie : Tie} (hx : x.isFinite = true)
include hx

theorem onGrid?_isSome {c : ℕ} (h : NearestAt (Decimal.mk c e).value x.magnitude) : (x.onGrid? tie e).isSome = true := by
  have hspec := onGrid?_spec tie x e
  cases hgrid : x.onGrid? tie e with
  | some d => rfl
  | none =>
    rw [hgrid] at hspec
    rcases neighbour_of_multiple h with hread | hread
    · exact absurd ((readsBack_iff hx _).2 hread) (Bool.eq_false_iff.1 hspec.1)
    · exact absurd ((readsBack_iff hx _).2 hread) (Bool.eq_false_iff.1 hspec.2)

theorem onGrid?_eq_some {d : Decimal} (h : x.onGrid? tie e = some d) :
    NearestAt d.value x.magnitude ∧ d.digits ≤ x.gridFloor e + 1 := by
  have hspec := onGrid?_spec tie x e
  rw [h] at hspec
  refine ⟨(readsBack_iff hx d).1 hspec.1, ?_⟩
  rcases hspec.2 with rfl | rfl
  · exact Nat.le_succ _
  · exact le_rfl

end

/-! ## The search -/

theorem findSome?_range_le {α : Type} {f : ℕ → Option α} {n k : ℕ} (hk : k < n) (hf : (f k).isSome = true) :
    ∃ i a, i ≤ k ∧ f i = some a ∧ (List.range n).findSome? f = some a := by
  have hmem : k ∈ List.range n := List.mem_range.2 hk
  obtain ⟨a, ha⟩ := Option.isSome_iff_exists.1 (List.findSome?_isSome_iff.2 ⟨k, hmem, hf⟩)
  obtain ⟨before, i, behind, hrange, hi, hbefore⟩ := List.findSome?_eq_some_iff.1 ha
  refine ⟨i, a, ?_, hi, ha⟩
  have hsorted := List.pairwise_lt_range (n := n)
  rw [hrange] at hmem hsorted
  rcases List.mem_append.1 hmem with hk | hk
  · rw [hbefore k hk] at hf
    cases hf
  · rcases List.mem_cons.1 hk with rfl | hk
    · exact le_rfl
    · exact (List.rel_of_pairwise_cons (List.pairwise_append.1 hsorted).2.1 hk).le

theorem units_ne_zero_iff {x : Binary64} : x.units ≠ 0 ↔ x.isZero = false := by
  have hinj : unitsAt x.magnitude = unitsAt 0 ↔ x.magnitude = 0 := strictMono_unitsAt.injective.eq_iff
  have hzero : unitsAt 0 = 0 := by decide
  rw [hzero] at hinj
  rw [units_eq_unitsAt, isZero, decide_eq_false_iff_not, ne_eq, hinj]

/-- What the search for a decimal with fewest digits finds. -/
def found? (tie : Tie) (x : Binary64) : Option Decimal :=
  (List.range 17).findSome? fun n => x.onGrid? tie (x.decimalPlaces - (n + 1 : ℕ))

theorem shortest_of_isZero {x : Binary64} (h : x.isZero = true) (tie : Tie) : x.shortest tie = ⟨0, 0⟩ := by
  unfold shortest
  rw [if_pos h]

theorem shortest_of_not_isZero {x : Binary64} (h : x.isZero = false) (tie : Tie) :
    x.shortest tie = ((x.found? tie).getD x.exactDecimal).normalize := by
  unfold shortest
  rw [if_neg (Bool.eq_false_iff.1 h)]
  rfl

theorem sizeAt_add {k r : ℕ} (hr : r ≤ 2 ^ 53) (hnormal : k = 0 ∨ 2 ^ 52 ≤ r) :
    sizeAt (k * 2 ^ 52 + r) = r * (2 ^ k / unitsPerOne) := by
  rw [sizeAt, unitsAt_add hr hnormal]
  push_cast
  rw [mul_div_assoc]

/-- How far a magnitude is from its neighbours, in relation to itself: a power of two is nearer to the one below, but far
    enough from the one above. -/
theorem spacing (m : ℕ) : sizeAt (m + 1) < 2 ^ 52 * (sizeAt (m + 1 + 1) - sizeAt m) ∨
    sizeAt (m + 1) ≤ 2 ^ 52 * (sizeAt (m + 1 + 1) - sizeAt (m + 1)) := by
  obtain ⟨k, r, hm, hr, hnormal⟩ := exists_significand (m + 1)
  have hstep : (0 : ℚ) < 2 ^ k / unitsPerOne := div_pos (by positivity) cast_unitsPerOne_pos
  have hsize := sizeAt_add hr.le hnormal
  have hnext := sizeAt_add (r := r + 1) hr (hnormal.imp_right Nat.le_succ_of_le)
  rw [← Nat.add_assoc, ← hm] at hnext
  rw [← hm] at hsize
  rw [hnext, hsize]
  push_cast
  by_cases hpower : k = 0 ∨ 2 ^ 52 < r
  · left
    have hprevious := sizeAt_add (k := k) (r := r - 1) (by omega) (by omega)
    have hcast : ((r - 1 : ℕ) : ℚ) = r - 1 := by rw [Nat.cast_sub (by omega), Nat.cast_one]
    have heq : m = k * 2 ^ 52 + (r - 1) := by omega
    have hrq : (r : ℚ) < 2 ^ 53 := by exact_mod_cast hr
    rw [heq, hprevious, hcast]
    nlinarith
  · right
    obtain rfl : r = 2 ^ 52 := by omega
    push_cast
    linarith

/-- Some multiple of the power of ten at which the number has so many digits reads back. -/
def ReadsOn (x : Binary64) (digits : ℕ) : Prop :=
  ∃ c : ℕ, NearestAt (Decimal.mk c (x.decimalPlaces - digits)).value x.magnitude

section
variable {x : Binary64} (hx : x.isFinite = true) (hne : x.units ≠ 0)
include hne

theorem gridFloor_lt (n : ℕ) : x.gridFloor (x.decimalPlaces - n) < 10 ^ n := by
  have hlow := (x.gridFloor_le (x.decimalPlaces - n)).trans_lt (size_between_places hne).2
  rw [← lt_div_iff₀ (ten_zpow_pos _), ← zpow_sub₀ (by norm_num), sub_sub_cancel, zpow_natCast] at hlow
  exact_mod_cast hlow

theorem digits_ne_zero_of_nearestAt {d : Decimal} (h : NearestAt d.value x.magnitude) : d.digits ≠ 0 := by
  intro hdigits
  rw [Decimal.value_of_digits_eq_zero hdigits, ← sizeAt_zero] at h
  have hmagnitude : x.magnitude = 0 := h.unique (nearestAt_sizeAt 0)
  exact Bool.eq_false_iff.1 (units_ne_zero_iff.1 hne) (decide_eq_true hmagnitude)

/-- If a decimal reads back, so does a multiple with as many digits: it is one itself, or a power of ten lies between it and
    the number. -/
theorem readsOn_digitCount {d : Decimal} (h : NearestAt d.value x.magnitude) : x.ReadsOn (digitCount d.digits) := by
  have hdigits := digits_ne_zero_of_nearestAt hne h
  obtain ⟨hlow, hhigh⟩ := size_between_places hne
  rcases lt_trichotomy d.places x.decimalPlaces with hlt | heq | hgt
  · have hcount := Decimal.digitCount_pos d.digits
    have hpower : (Decimal.mk (10 ^ (digitCount d.digits - 1)) (x.decimalPlaces - digitCount d.digits)).value =
        10 ^ (x.decimalPlaces - 1) := by
      rw [Decimal.value_pow]
      congr 1
      omega
    refine ⟨_, h.between x.nearestAt_size ?_ (hpower.trans_le hlow)⟩
    rw [hpower]
    exact d.value_lt.le.trans (ten_zpow_le (by omega))
  · refine ⟨d.digits, ?_⟩
    rw [← heq, Decimal.places, add_sub_cancel_right]
    exact h
  · have hpower : (Decimal.mk (10 ^ digitCount d.digits) (x.decimalPlaces - digitCount d.digits)).value =
        10 ^ x.decimalPlaces := by
      rw [Decimal.value_pow, add_sub_cancel]
    refine ⟨_, x.nearestAt_size.between h (hhigh.le.trans_eq hpower.symm) ?_⟩
    rw [hpower]
    exact (ten_zpow_le (by omega)).trans (Decimal.le_value hdigits)

/-- Seventeen digits are enough. -/
theorem readsOn_seventeen : x.ReadsOn 17 := by
  obtain ⟨hlow, -⟩ := size_between_places hne
  obtain ⟨m, hm⟩ : ∃ m, x.magnitude = m + 1 := Nat.exists_eq_succ_of_ne_zero fun h =>
    Bool.eq_false_iff.1 (units_ne_zero_iff.1 hne) (decide_eq_true h)
  have hgrid := ten_zpow_pos (x.decimalPlaces - (17 : ℕ))
  have hfine : 10 ^ 16 * (10 : ℚ) ^ (x.decimalPlaces - (17 : ℕ)) ≤ x.size := by
    refine le_trans (le_of_eq ?_) hlow
    rw [← zpow_natCast, ← zpow_add₀ (by norm_num)]
    congr 1
    push_cast
    ring
  have hfloor := x.gridFloor_le (x.decimalPlaces - (17 : ℕ))
  have hnext := x.lt_gridFloor (x.decimalPlaces - (17 : ℕ))
  rw [size_eq_sizeAt, hm] at hfine hfloor hnext
  simp only [ReadsOn, Decimal.value, hm]
  generalize x.gridFloor (x.decimalPlaces - (17 : ℕ)) = floor at *
  generalize (10 : ℚ) ^ (x.decimalPlaces - (17 : ℕ)) = grid at *
  by_contra hnone
  rw [not_exists] at hnone
  have hbelow : 2 * (floor * grid) ≤ sizeAt m + sizeAt (m + 1) := by
    by_contra h
    exact hnone floor (nearestAt_of_upper hfloor (.inl (by linarith)))
  have habove : sizeAt (m + 1) + sizeAt (m + 1 + 1) ≤ 2 * ((floor + 1 : ℕ) * grid) := by
    by_contra h
    exact hnone (floor + 1) (nearestAt_of_lower hnext.le (.inl (by linarith)))
  push_cast at habove
  rcases spacing m with h | h <;> linarith

include hx

theorem digitCount_shortest_le_of_readsOn (tie : Tie) {n : ℕ} (hn : 0 < n) (hmax : n ≤ 17) (h : x.ReadsOn n) :
    digitCount (x.shortest tie).digits ≤ n := by
  obtain ⟨c, hc⟩ := h
  have hcast : ((n - 1 + 1 : ℕ) : ℤ) = n := by rw [Nat.sub_add_cancel hn]
  obtain ⟨i, d, hi, hd, hfound⟩ := findSome?_range_le (f := fun n => x.onGrid? tie (x.decimalPlaces - (n + 1 : ℕ)))
    (by omega : n - 1 < 17) (onGrid?_isSome hx (by rw [hcast]; exact hc))
  have hdigits : d.digits ≤ 10 ^ (i + 1) :=
    (onGrid?_eq_some hx hd).2.trans (gridFloor_lt hne (i + 1))
  rw [shortest_of_not_isZero (units_ne_zero_iff.1 hne), found?, hfound]
  exact (Decimal.digitCount_normalize_le i.succ_pos hdigits).trans (by omega)

end

theorem nearestAt_shortest {x : Binary64} (hx : x.isFinite = true) (tie : Tie) :
    NearestAt (x.shortest tie).value x.magnitude := by
  cases hzero : x.isZero with
  | true =>
    have hmagnitude : x.magnitude = 0 := of_decide_eq_true hzero
    rw [shortest_of_isZero hzero, Decimal.value_of_digits_eq_zero rfl, hmagnitude, ← sizeAt_zero]
    exact nearestAt_sizeAt 0
  | false =>
    rw [shortest_of_not_isZero hzero, Decimal.value_normalize]
    cases hfound : x.found? tie with
    | none =>
      rw [Option.getD_none, value_exactDecimal]
      exact x.nearestAt_size
    | some d =>
      obtain ⟨n, -, hd⟩ := List.exists_of_findSome?_eq_some hfound
      exact (onGrid?_eq_some hx hd).1

/-- The shortest decimal has at most seventeen digits, and no decimal that reads back has fewer. -/
theorem digitCount_shortest_le {x : Binary64} (hx : x.isFinite = true) (tie : Tie) :
    digitCount (x.shortest tie).digits ≤ 17 ∧
    ∀ d : Decimal, NearestAt d.value x.magnitude → digitCount (x.shortest tie).digits ≤ digitCount d.digits := by
  cases hzero : x.isZero with
  | true =>
    have hcount : digitCount 0 = 1 := by decide
    rw [shortest_of_isZero hzero, hcount]
    exact ⟨by decide, fun d _ => Decimal.digitCount_pos d.digits⟩
  | false =>
    have hne := units_ne_zero_iff.2 hzero
    have hmax := digitCount_shortest_le_of_readsOn hx hne tie (by decide) le_rfl (readsOn_seventeen hne)
    refine ⟨hmax, fun d hd => ?_⟩
    rcases Nat.lt_or_ge 17 (digitCount d.digits) with hlong | hshort
    · exact hmax.trans hlong.le
    · exact digitCount_shortest_le_of_readsOn hx hne tie (Decimal.digitCount_pos _) hshort (readsOn_digitCount hne hd)

end Binary64

end Conform

import Conform.Proofs.Exact
import Conform.Proofs.Classification
/- Whole numbers by parity. The tests look at the units of a number. What they say is compared with the exact values:
   divisions of rationals with a quotient that is cut towards zero leave a remainder, and a number is whole, even or odd by
   the remainders that one and two leave (`isWhole_iff`, `isEven_iff`, `isOdd_iff`). As two remainders are all that a whole
   number can have, its tests part the whole numbers, of either sign and any magnitude (`even_odd_split_integer`). -/
namespace Conform

/-! ## Remainders -/

/-- The whole number next to a rational on the side of zero. -/
def cutToZero (q : ℚ) : ℤ :=
  if 0 ≤ q then ⌊q⌋ else ⌈q⌉

/-- What is left of a rational if another is taken from it as often as it goes in, counted towards zero. -/
def cutRemainder (a b : ℚ) : ℚ :=
  a - b * cutToZero (a / b)

theorem cutToZero_intCast (k : ℤ) : cutToZero k = k := by
  rw [cutToZero, Int.floor_intCast, Int.ceil_intCast, ite_self]

theorem cutRemainder_eq_zero_iff {a b : ℚ} (hb : b ≠ 0) : cutRemainder a b = 0 ↔ ∃ k : ℤ, a / b = k := by
  constructor
  · intro h
    refine ⟨cutToZero (a / b), ?_⟩
    rw [div_eq_iff hb]
    linarith [sub_eq_zero.1 h]
  · rintro ⟨k, hk⟩
    rw [cutRemainder, hk, cutToZero_intCast, ← hk, mul_div_cancel₀ a hb, sub_self]

/-- Two leaves one of a magnitude exactly if it is odd. -/
theorem cutRemainder_two_eq_one_iff {a : ℚ} (ha : 0 ≤ a) : cutRemainder a 2 = 1 ↔ ∃ k : ℕ, a = 2 * k + 1 := by
  have hhalf : 0 ≤ a / 2 := by positivity
  have hcut : cutToZero (a / 2) = ⌊a / 2⌋ := if_pos hhalf
  rw [cutRemainder, hcut]
  constructor
  · intro h
    obtain ⟨k, hk⟩ := Int.eq_ofNat_of_zero_le (Int.floor_nonneg.2 hhalf)
    rw [hk] at h
    push_cast at h
    exact ⟨k, by linarith⟩
  · rintro ⟨k, rfl⟩
    have hfloor : ⌊(2 * (k : ℚ) + 1) / 2⌋ = k := by
      rw [Int.floor_eq_iff]
      constructor <;> push_cast <;> linarith
    rw [hfloor]
    push_cast
    ring

theorem exists_intCast_iff_abs {q : ℚ} : (∃ k : ℤ, q = k) ↔ ∃ k : ℕ, |q| = k := by
  constructor
  · rintro ⟨k, rfl⟩
    exact ⟨k.natAbs, by rw [Nat.cast_natAbs, Int.cast_abs]⟩
  · rintro ⟨k, hk⟩
    rcases abs_choice q with h | h
    · exact ⟨k, by rw [← h, hk, Int.cast_natCast]⟩
    · exact ⟨-k, by rw [Int.cast_neg, Int.cast_natCast, ← hk, h, neg_neg]⟩

/-! ## Numbers -/

namespace Binary64

theorem mod_two_mul_eq_iff {a b : ℕ} (hb : 0 < b) : a % (2 * b) = b ↔ ∃ k, a = (2 * k + 1) * b := by
  constructor
  · intro h
    have hdiv := Nat.div_add_mod a (2 * b)
    rw [h] at hdiv
    refine ⟨a / (2 * b), hdiv.symm.trans ?_⟩
    ring
  · rintro ⟨k, rfl⟩
    have hsum : (2 * k + 1) * b = b + 2 * b * k := by ring
    rw [hsum, Nat.add_mul_mod_self_left]
    exact Nat.mod_eq_of_lt (by omega)

theorem count_isEven_isOdd (x : Binary64) : [x.isEven, x.isOdd].count true = x.isWhole.toNat := by
  have hpos := unitsPerOne_pos
  have hlt := Nat.mod_lt x.units hpos
  -- the units that are left by two ones are those left by one, and perhaps one more
  have hmod : x.units % (2 * unitsPerOne) = x.units % unitsPerOne + unitsPerOne * (x.units / unitsPerOne % 2) := by
    rw [Nat.mul_comm 2, Nat.mod_mul]
  rw [isEven, isOdd, isWhole, hmod]
  rcases Nat.mod_two_eq_zero_or_one (x.units / unitsPerOne) with h | h
  · have hodd : x.units % unitsPerOne ≠ unitsPerOne := by omega
    simp only [h, Nat.mul_zero, Nat.add_zero, hodd, decide_false, Bool.and_false]
    cases x.isFinite && decide (x.units % unitsPerOne = 0) <;> rfl
  · have heven : x.units % unitsPerOne + unitsPerOne ≠ 0 := by omega
    have hodd : x.units % unitsPerOne + unitsPerOne = unitsPerOne ↔ x.units % unitsPerOne = 0 := by omega
    simp only [h, Nat.mul_one, heven, hodd, decide_false, Bool.and_false]
    cases x.isFinite && decide (x.units % unitsPerOne = 0) <;> rfl

theorem isFinite_of_and {x : Binary64} {p : Bool} (h : (x.isFinite && p) = true) : x.isFinite = true :=
  (Bool.and_eq_true_iff.1 h).1

section
variable {x : Binary64} {q : ℚ} (h : x.value? = some q)
include h

theorem isFinite_of_value? : x.isFinite = true :=
  (value?_eq_some_iff.1 h).1

theorem isWhole_iff : x.isWhole = true ↔ ∃ k : ℤ, q = k := by
  rw [exists_intCast_iff_abs, abs_of_value? h, isWhole, isFinite_of_value? h, Bool.true_and, decide_eq_true_eq,
    ← Nat.dvd_iff_mod_eq_zero, dvd_iff_exists_eq_mul_left]
  exact exists_congr fun k => size_eq_natCast_iff.symm

theorem isEven_iff : x.isEven = true ↔ ∃ k : ℤ, q / 2 = k := by
  rw [exists_intCast_iff_abs, abs_div, abs_of_value? h, isEven, isFinite_of_value? h, Bool.true_and, decide_eq_true_eq,
    ← Nat.dvd_iff_mod_eq_zero, dvd_iff_exists_eq_mul_left]
  refine exists_congr fun k => ?_
  rw [← Nat.mul_assoc, ← size_eq_natCast_iff, Nat.cast_mul, abs_two, div_eq_iff two_ne_zero]
  rfl

theorem isOdd_iff : x.isOdd = true ↔ ∃ k : ℕ, |q| = 2 * k + 1 := by
  rw [abs_of_value? h, isOdd, isFinite_of_value? h, Bool.true_and, decide_eq_true_eq, mod_two_mul_eq_iff unitsPerOne_pos]
  refine exists_congr fun k => ?_
  rw [← size_eq_natCast_iff]
  push_cast
  rfl

end

end Binary64

/-! ## Values -/

/-- The value is a finite number, and its exact value has the property. -/
def Value.IsNumberWith (p : ℚ → Prop) (v : Value) : Prop :=
  ∃ n q, v = .number n ∧ n.value? = some q ∧ p q

namespace Registry

theorem onNumber_iff (test : Binary64 → Bool) {p : ℚ → Prop} (hfinite : ∀ n, test n = true → n.isFinite = true)
    (h : ∀ n q, n.value? = some q → (test n = true ↔ p q)) (v : Value) :
    onNumber test v = true ↔ v.IsNumberWith p := by
  constructor
  · intro htest
    obtain ⟨n, hn, htest⟩ := (Option.any_eq_true _ _).1 htest
    obtain ⟨q, hq⟩ := Binary64.exists_value? (hfinite n htest)
    cases v with
    | number m =>
      cases hn
      exact ⟨n, q, rfl, hq, (h n q hq).1 htest⟩
    | _ => cases hn
  · rintro ⟨n, q, rfl, hq, hp⟩
    exact (h n q hq).2 hp

def numericTests : List (String × Test) :=
  standardTests ++ numberTests

theorem numeric_eq_ofTable : numeric = ofTable numericTests := by
  rw [numeric, standard, ofTable, ofTable, numericTests, extend_append]

theorem nodup_names_numericTests : (Entries.names numericTests).Nodup := by decide +kernel

theorem check_numeric {entry : String × Test} (h : entry ∈ numericTests) (v : Value) :
    numeric.check entry.1 v = some (entry.2 v) := by
  rw [numeric_eq_ofTable]
  exact check_ofTable nodup_names_numericTests h v

/-- The tests of even and odd numbers part the numbers that the test of whole numbers accepts, and no value else is accepted by
    one of them. A value is accepted as whole, as even or as odd if it is a finite number whose exact value is: by what
    is left of it by one and by two, and the even ones are those with a whole half. -/
theorem even_odd_split_integer (v : Value) :
    numeric.Splits v "integer" ["even", "odd"] ∧
    numeric.check "integer" v = standard.check "integer" v ∧
    (numeric.check "integer" v = some true ↔ v.IsNumberWith fun q => ∃ k : ℤ, q = k) ∧
    (numeric.check "integer" v = some true ↔ v.IsNumberWith fun q => cutRemainder q 1 = 0) ∧
    (numeric.check "even" v = some true ↔ v.IsNumberWith fun q => ∃ k : ℤ, q / 2 = k) ∧
    (numeric.check "even" v = some true ↔ v.IsNumberWith fun q => cutRemainder q 2 = 0) ∧
    (numeric.check "odd" v = some true ↔ v.IsNumberWith fun q => cutRemainder |q| 2 = 1) := by
  have hinteger : ("integer", onNumber Binary64.isWhole) ∈ standardTests := by simp [standardTests, primitiveTests]
  have hwhole := check_numeric (List.mem_append_left numberTests hinteger) v
  have heven : numeric.check "even" v = some (onNumber Binary64.isEven v) :=
    check_numeric (List.mem_append_right standardTests List.mem_cons_self) v
  have hodd : numeric.check "odd" v = some (onNumber Binary64.isOdd v) :=
    check_numeric (List.mem_append_right standardTests (List.mem_cons_of_mem _ List.mem_cons_self)) v
  rw [hwhole, heven, hodd, Option.some.injEq, Option.some.injEq, Option.some.injEq, check_standard hinteger v]
  refine ⟨?_, rfl, ?_, ?_, ?_, ?_, ?_⟩
  · rw [numeric_eq_ofTable]
    refine splits_ofTable nodup_names_numericTests ("integer", onNumber Binary64.isWhole)
      [("even", onNumber Binary64.isEven), ("odd", onNumber Binary64.isOdd)] ?_ ?_
    · simp [numericTests, standardTests, primitiveTests, numberTests]
    · cases v with
      | number n => exact n.count_isEven_isOdd
      | _ => rfl
  · exact onNumber_iff Binary64.isWhole (fun _ => Binary64.isFinite_of_and) (fun n q h => Binary64.isWhole_iff h) v
  · refine onNumber_iff Binary64.isWhole (fun _ => Binary64.isFinite_of_and) (fun n q h => ?_) v
    rw [Binary64.isWhole_iff h, cutRemainder_eq_zero_iff one_ne_zero, div_one]
  · exact onNumber_iff Binary64.isEven (fun _ => Binary64.isFinite_of_and) (fun n q h => Binary64.isEven_iff h) v
  · refine onNumber_iff Binary64.isEven (fun _ => Binary64.isFinite_of_and) (fun n q h => ?_) v
    rw [Binary64.isEven_iff h, cutRemainder_eq_zero_iff two_ne_zero]
  · refine onNumber_iff Binary64.isOdd (fun _ => Binary64.isFinite_of_and) (fun n q h => ?_) v
    rw [Binary64.isOdd_iff h, cutRemainder_two_eq_one_iff (abs_nonneg q)]

end Registry

end Conform

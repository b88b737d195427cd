import Conform.Proofs.Numerals
import Conform.Proofs.Shortest
import Conform.Proofs.Telling
/- Numbers as texts. The text of a finite number is a numeral for its shortest decimal; it can be read to its end, and the
   decimal reads back, with the sign (`Binary64.ofDecimal_numeral`). The texts of the infinities are no numerals
   (`read?_of_isInfinite`), so that no two numbers share a text (`numberText_inj`). An `e` stands only in front of a power,
   which the style of numbers gives to those that it does not write positionally (`exponent_iff`). -/
namespace Conform

namespace Binary64

/-! ## Finite numbers -/

/-- The numeral that is written for a finite number. -/
def numeral (style : DecimalStyle) (x : Binary64) : Numeral :=
  style.numeral x.isNegative (x.isPlain style) (x.shortest style.tie)

theorem write_toList (style : DecimalStyle) (x : Binary64) : (x.write style).toList = (x.numeral style).chars :=
  style.write_toList _ _ _

theorem isWritten_numeral (style : DecimalStyle) (x : Binary64) : (x.numeral style).IsWritten :=
  style.isWritten_numeral _ _ _

theorem value_numeral (style : DecimalStyle) (x : Binary64) :
    (x.numeral style).magnitude.value = (x.shortest style.tie).value :=
  style.value_numeral _ _ _

theorem read?_write (style : DecimalStyle) (x : Binary64) :
    Numeral.read? (x.write style).toList = some (x.numeral style, []) := by
  rw [write_toList]
  exact Numeral.read?_chars (x.isWritten_numeral style)

theorem ofDecimal_numeral (style : DecimalStyle) {x : Binary64} (hx : x.isFinite = true) :
    ofDecimal (x.numeral style).isNegative (x.numeral style).magnitude = x := by
  rw [ofDecimal_eq_iff hx, value_numeral]
  exact ⟨style.isNegative_numeral _ _ _, nearestAt_shortest hx style.tie⟩

theorem isPlain_iff {style : DecimalStyle} {x : Binary64} :
    x.isPlain style = true ↔ x.isZero = true ∨
      (ofDecimal false style.plainFrom).size ≤ x.size ∧ x.size < (ofDecimal false style.plainBelow).size := by
  rw [isPlain, Bool.or_eq_true, Bool.and_eq_true, decide_eq_true_eq, decide_eq_true_eq, size_eq_sizeAt, size_eq_sizeAt,
    size_eq_sizeAt, strictMono_sizeAt.le_iff_le, strictMono_sizeAt.lt_iff_lt]

theorem eq_of_isInfinite {x y : Binary64} (hx : x.isInfinite = true) (hy : y.isInfinite = true)
    (h : x.isNegative = y.isNegative) : x = y := by
  rw [isInfinite, decide_eq_true_eq] at hx hy
  exact eq_iff.2 ⟨h, hx.trans hy.symm⟩

end Binary64

namespace Value

/-! ## Texts of numbers -/

theorem numberText_of_isFinite {n : Binary64} (h : n.isFinite = true) : numberText n = n.write numberStyle := by
  rw [numberText, Binary64.isNaN_eq_false_iff.2 (.inl h), Binary64.isInfinite_of_isFinite h]
  rfl

theorem numberText_of_isInfinite {n : Binary64} (h : n.isInfinite = true) :
    numberText n = if n.isNegative then "-Infinity" else "Infinity" := by
  rw [numberText, Binary64.isNaN_eq_false_iff.2 (.inr h), h]
  rfl

theorem read?_of_isInfinite {n : Binary64} (h : n.isInfinite = true) (numeral : Numeral) :
    Numeral.read? (numberText n).toList ≠ some (numeral, []) := by
  have hrest {text : String} (hread : (Numeral.read? text.toList).map (·.2.isEmpty) = some false) :
      Numeral.read? text.toList ≠ some (numeral, []) := by
    intro heq
    rw [heq] at hread
    cases hread
  rw [numberText_of_isInfinite h]
  split
  · exact hrest (by decide)
  · exact hrest (by decide)

/-- A text tells the number apart: the numeral of a finite number reads back, and the infinities differ in their signs. -/
theorem numberText_inj {m n : Binary64} (hm : m.isNaN = false) (hn : n.isNaN = false) (h : numberText m = numberText n) :
    m = n := by
  rcases Binary64.isNaN_eq_false_iff.1 hm with hm | hm <;> rcases Binary64.isNaN_eq_false_iff.1 hn with hn | hn
  · have hread := m.read?_write numberStyle
    rw [← numberText_of_isFinite hm, h, numberText_of_isFinite hn, n.read?_write, Option.some.injEq, Prod.mk.injEq] at hread
    rw [← Binary64.ofDecimal_numeral numberStyle hm, ← hread.1, Binary64.ofDecimal_numeral numberStyle hn]
  · refine absurd (m.read?_write numberStyle) ?_
    rw [← numberText_of_isFinite hm, h]
    exact read?_of_isInfinite hn _
  · refine absurd (n.read?_write numberStyle) ?_
    rw [← numberText_of_isFinite hn, ← h]
    exact read?_of_isInfinite hm _
  · refine Binary64.eq_of_isInfinite hm hn ?_
    rw [numberText_of_isInfinite hm, numberText_of_isInfinite hn] at h
    cases hs : m.isNegative <;> cases ht : n.isNegative <;> rw [hs, ht] at h <;> first | rfl | exact absurd h (by decide)

/-! ## The exponent -/

/-- The text has an exponent behind an only `e`, with a sign and digits. -/
def HasSignedExponent (text : String) : Prop :=
  ∃ front sign power, text.toList = front ++ 'e' :: sign :: power ∧ 'e' ∉ front ∧ (sign = '+' ∨ sign = '-') ∧
    power ≠ [] ∧ Numeral.AreDigits power

theorem size_plainBelow : (Binary64.ofDecimal false numberStyle.plainBelow).size = 10 ^ 21 := by
  have hunits : (Binary64.ofDecimal false numberStyle.plainBelow).units = 10 ^ 21 * Binary64.unitsPerOne := by
    decide +kernel
  exact_mod_cast Binary64.size_eq_natCast_iff.2 hunits

theorem isPlain_eq_false_iff (n : Binary64) : n.isPlain numberStyle = false ↔
    n.isZero = false ∧ (n.size < (Binary64.ofDecimal false ⟨1, -6⟩).size ∨ 10 ^ 21 ≤ n.size) := by
  rw [← Bool.not_eq_true, Binary64.isPlain_iff, size_plainBelow, not_or, Bool.not_eq_true, not_and_or, not_le, not_lt]
  rfl

theorem not_mem_write {n : Binary64} (h : n.isPlain numberStyle = true) : 'e' ∉ (n.write numberStyle).toList := by
  obtain ⟨front, hfront, hchars⟩ := Numeral.chars_eq_of_power (n.isWritten_numeral numberStyle)
  have hpower : (n.numeral numberStyle).power = none := by rw [Binary64.numeral, DecimalStyle.power_numeral, h]; rfl
  rw [Binary64.write_toList, hchars, hpower, Numeral.powerChars, List.append_nil]
  exact hfront

theorem hasSignedExponent_write {n : Binary64} (h : n.isPlain numberStyle = false) :
    HasSignedExponent (n.write numberStyle) := by
  obtain ⟨front, hfront, hchars⟩ := Numeral.chars_eq_of_power (n.isWritten_numeral numberStyle)
  have hpower : (n.numeral numberStyle).power = some ((n.shortest numberStyle.tie).places - 1) := by
    rw [Binary64.numeral, DecimalStyle.power_numeral, h]
    rfl
  generalize (n.shortest numberStyle.tie).places - 1 = power at hpower
  refine ⟨front, if power < 0 then '-' else '+', Nat.toDigits 10 power.natAbs, ?_, hfront, ?_, ?_, ?_⟩
  · rw [Binary64.write_toList, hchars, hpower, Numeral.powerChars]
  · split
    · exact .inr rfl
    · exact .inl rfl
  · exact List.ne_nil_of_length_pos Nat.length_toDigits_pos
  · exact Numeral.areDigits_toDigits _

theorem HasSignedExponent.mem {text : String} (h : HasSignedExponent text) : 'e' ∈ text.toList := by
  obtain ⟨front, sign, power, htext, -⟩ := h
  rw [htext]
  exact List.mem_append_right _ List.mem_cons_self

/-- An exponent has a sign, and is written for the finite numbers that are not positional. -/
theorem exponent_iff {n : Binary64} (hn : n.isNaN = false) :
    ('e' ∈ (numberText n).toList ↔ n.isFinite = true ∧ n.isPlain numberStyle = false) ∧
    ('e' ∈ (numberText n).toList → HasSignedExponent (numberText n)) := by
  rcases Binary64.isNaN_eq_false_iff.1 hn with hfinite | hinfinite
  · rw [numberText_of_isFinite hfinite]
    cases hplain : n.isPlain numberStyle with
    | true =>
      have hmem := not_mem_write hplain
      exact ⟨⟨fun he => absurd he hmem, fun h => nomatch h.2⟩, fun he => absurd he hmem⟩
    | false =>
      have hexponent := hasSignedExponent_write hplain
      exact ⟨⟨fun _ => ⟨hfinite, rfl⟩, fun _ => hexponent.mem⟩, fun _ => hexponent⟩
  · have hmem : 'e' ∉ (numberText n).toList := by
      rw [numberText_of_isInfinite hinfinite]
      split <;> decide
    have hfinite : ¬ n.isFinite = true := fun h => by
      rw [Binary64.isInfinite_of_isFinite h] at hinfinite
      cases hinfinite
    exact ⟨⟨fun he => absurd he hmem, fun h => absurd h.1 hfinite⟩, fun he => absurd he hmem⟩

-- the bounds themselves: 1e-6 is positional, 1e21 is not
example : [(⟨1, -6⟩ : Decimal), ⟨1, 21⟩].map (fun d => numberText (Binary64.ofDecimal true d)) = ["-0.000001", "-1e+21"] := by
  decide +kernel

/-- The text of a number identifies its bits. That of a finite number is a numeral with the sign of the number, also of a
    zero, for a decimal that is nearest to it, so that it reads back, and no decimal that is nearest to it has fewer digits.
    Numbers that are shown alike are one. An exponent is written for the finite numbers other than the zeros that are below
    the number 1e-6 or not below 1e21, and it has a sign. -/
theorem number_text_tells_apart (n : Binary64) (hn : n.isNaN = false) :
    (n.isFinite = true → ∃ numeral : Numeral,
      Numeral.read? (numberText n).toList = some (numeral, []) ∧
      numeral.isNegative = n.isNegative ∧
      Binary64.NearestAt numeral.magnitude.value n.magnitude ∧
      Binary64.ofDecimal numeral.isNegative numeral.magnitude = n ∧
      ∃ d : Decimal, d.value = numeral.magnitude.value ∧
        ∀ d' : Decimal, Binary64.NearestAt d'.value n.magnitude →
          Decimal.digitCount d.digits ≤ Decimal.digitCount d'.digits) ∧
    (∀ m : Binary64, m.isNaN = false → (number m).preview = (number n).preview → m = n) ∧
    ('e' ∈ (numberText n).toList ↔ n.isFinite = true ∧ n.isZero = false ∧
      (n.size < (Binary64.ofDecimal false ⟨1, -6⟩).size ∨ 10 ^ 21 ≤ n.size)) ∧
    ('e' ∈ (numberText n).toList → HasSignedExponent (numberText n)) := by
  refine ⟨fun hfinite => ?_, fun m hm h => ?_, ?_, (exponent_iff hn).2⟩
  · have hvalue := n.value_numeral numberStyle
    refine ⟨n.numeral numberStyle, ?_, numberStyle.isNegative_numeral _ _ _, ?_, n.ofDecimal_numeral numberStyle hfinite,
      n.shortest numberStyle.tie, hvalue.symm, (Binary64.digitCount_shortest_le hfinite _).2⟩
    · rw [numberText_of_isFinite hfinite, n.read?_write]
    · rw [hvalue]
      exact Binary64.nearestAt_shortest hfinite _
  · refine numberText_inj hm hn ?_
    simp only [preview] at h
    rwa [Text.between_inj] at h
  · rw [(exponent_iff hn).1, isPlain_eq_false_iff]

/-- The least positive number has a text of its own. -/
theorem number_text_tells_apart_least : (Binary64.mk 1).isNaN = false ∧
    numberText ⟨1⟩ = "5e-324" ∧ HasSignedExponent (numberText ⟨1⟩) ∧
    ∀ m : Binary64, m.isNaN = false → (number m).preview = (number ⟨1⟩).preview → m = ⟨1⟩ := by
  have hnan : (Binary64.mk 1).isNaN = false := by decide
  have htext : numberText ⟨1⟩ = "5e-324" := by decide +kernel
  obtain ⟨-, hpreview, -, hexponent⟩ := number_text_tells_apart ⟨1⟩ hnan
  refine ⟨hnan, htext, hexponent ?_, hpreview⟩
  rw [htext]
  decide

end Value

end Conform

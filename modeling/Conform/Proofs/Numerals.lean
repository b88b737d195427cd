import Conform.Decimal
import Conform.Proofs.Exact
/- Numerals that are written and read. A decimal is written as the characters of a numeral (`DecimalStyle.write_toList`),
   with digits wherever digits have to be (`DecimalStyle.isWritten_numeral`), and reading takes such a numeral apart into
   what it was put together from, up to its end (`Numeral.read?_chars`). The zeros that fill the gap between the digits
   and the point, and the place of the point, change the digits and the exponent but not the rational that they are
   (`DecimalStyle.value_numeral`). -/
namespace Conform

namespace Numeral

/-! ## Digits -/

def AreDigits (cs : List Char) : Prop :=
  ∀ c ∈ cs, c.isDigit = true

theorem digitsValue_eq (digits : List Char) : digitsValue digits = Nat.ofDigitChars 10 digits 0 := rfl

theorem digitsValue_append (digits digits' : List Char) :
    digitsValue (digits ++ digits') = digitsValue digits * 10 ^ digits'.length + digitsValue digits' := by
  rw [digitsValue_eq, Nat.ofDigitChars_append, Nat.ofDigitChars_eq_ofDigitChars_zero, Nat.mul_comm]
  rfl

theorem digitsValue_replicate (n : ℕ) : digitsValue (List.replicate n '0') = 0 := by
  rw [digitsValue_eq, Nat.ofDigitChars_replicate_zero, Nat.mul_zero]

theorem digitsValue_toDigits (n : ℕ) : digitsValue (Nat.toDigits 10 n) = n :=
  Nat.ofDigitChars_ten_toDigits

theorem areDigits_toDigits (n : ℕ) : AreDigits (Nat.toDigits 10 n) := fun _ h =>
  Nat.isDigit_of_mem_toDigits (by decide) (by decide) h

theorem areDigits_replicate (n : ℕ) : AreDigits (List.replicate n '0') := by
  intro c hc
  rw [List.eq_of_mem_replicate hc]
  rfl

theorem areDigits_append {cs cs' : List Char} (h : AreDigits cs) (h' : AreDigits cs') : AreDigits (cs ++ cs') :=
  fun c hc => (List.mem_append.1 hc).elim (h c) (h' c)

/-! ## Written numerals -/

def fractionChars : Option (List Char) → List Char
  | none => []
  | some digits => '.' :: digits

/-- How the power of a numeral is written, with a sign in any case. -/
def powerChars : Option ℤ → List Char
  | none => []
  | some power => 'e' :: (if power < 0 then '-' else '+') :: Nat.toDigits 10 power.natAbs

/-- How a numeral is written. -/
def chars (n : Numeral) : List Char :=
  n.sign.toList ++ (n.whole ++ (fractionChars n.fraction ++ powerChars n.power))

/-- There is a digit in front of the point, and no other characters than digits stand for digits. -/
structure IsWritten (n : Numeral) : Prop where
  sign : n.sign = none ∨ n.sign = some '-'
  whole_ne_nil : n.whole ≠ []
  whole : AreDigits n.whole
  fraction : ∀ digits, n.fraction = some digits → AreDigits digits

theorem readDigits_append_of {digits rest : List Char} (h : AreDigits digits)
    (hrest : ∀ c cs, rest = c :: cs → c.isDigit = false) : readDigits (digits ++ rest) = (digits, rest) := by
  rw [readDigits, List.takeWhile_append_of_pos h, List.dropWhile_append_of_pos h]
  cases rest with
  | nil => rw [List.takeWhile_nil, List.dropWhile_nil, List.append_nil]
  | cons c cs =>
    have hc : ¬ c.isDigit = true := Bool.eq_false_iff.1 (hrest c cs rfl)
    rw [List.takeWhile_cons_of_neg hc, List.dropWhile_cons_of_neg hc, List.append_nil]

theorem readSign_append {n : Numeral} (h : n.IsWritten) (rest : List Char) :
    readSign (n.sign.toList ++ (n.whole ++ rest)) = (n.sign, n.whole ++ rest) := by
  rcases h.sign with hsign | hsign
  · rw [hsign]
    obtain ⟨c, cs, hwhole⟩ := List.exists_cons_of_ne_nil h.whole_ne_nil
    have hc : c.isDigit = true := h.whole c (hwhole ▸ List.mem_cons_self)
    rw [hwhole]
    show readSign (c :: (cs ++ rest)) = _
    unfold readSign
    split
    · next heq =>
      cases heq
      cases hc
    · next heq =>
      cases heq
      cases hc
    · rfl
  · rw [hsign]
    rfl

theorem head_powerChars {power : Option ℤ} {c : Char} {cs : List Char} (h : powerChars power = c :: cs) : c = 'e' := by
  cases power with
  | none => cases h
  | some power =>
    rw [powerChars, List.cons.injEq] at h
    exact h.1.symm

theorem head_fractionChars {fraction : Option (List Char)} {power : Option ℤ} {c : Char} {cs : List Char}
    (h : fractionChars fraction ++ powerChars power = c :: cs) : c = '.' ∨ c = 'e' := by
  cases fraction with
  | none => exact .inr (head_powerChars h)
  | some digits =>
    rw [fractionChars, List.cons_append, List.cons.injEq] at h
    exact .inl h.1.symm

theorem readFraction_append {fraction : Option (List Char)} (h : ∀ digits, fraction = some digits → AreDigits digits)
    (power : Option ℤ) : readFraction (fractionChars fraction ++ powerChars power) = (fraction, powerChars power) := by
  cases fraction with
  | none =>
    cases power <;> rfl
  | some digits =>
    show (some (readDigits (digits ++ powerChars power)).1, (readDigits (digits ++ powerChars power)).2) = _
    rw [readDigits_append_of (h digits rfl) fun c cs hrest => by rw [head_powerChars hrest]; rfl]

theorem readPower?_toDigits {sign : Char} (h : sign = '+' ∨ sign = '-') (n : ℕ) :
    readPower? (sign :: Nat.toDigits 10 n) = some (if sign = '-' then -(n : ℤ) else n, []) := by
  have hsign : readSign (sign :: Nat.toDigits 10 n) = (some sign, Nat.toDigits 10 n) := by
    rcases h with rfl | rfl <;> rfl
  have hdigits : readDigits (Nat.toDigits 10 n ++ []) = (Nat.toDigits 10 n, []) :=
    readDigits_append_of (areDigits_toDigits n) fun c cs hcs => nomatch hcs
  rw [List.append_nil] at hdigits
  have hne : (Nat.toDigits 10 n).isEmpty = false :=
    List.isEmpty_eq_false_iff.2 (List.ne_nil_of_length_pos Nat.length_toDigits_pos)
  simp [readPower?, hsign, hdigits, hne, digitsValue_toDigits]

theorem readExponent?_powerChars (power : Option ℤ) : readExponent? (powerChars power) = some (power, []) := by
  cases power with
  | none => rfl
  | some power =>
    have hpower : readPower? ((if power < 0 then '-' else '+') :: Nat.toDigits 10 power.natAbs) = some (power, []) := by
      rcases lt_or_ge power 0 with hneg | hneg
      · rw [if_pos hneg, readPower?_toDigits (.inr rfl), if_pos rfl, Int.natCast_natAbs, abs_of_neg hneg, neg_neg]
      · rw [if_neg (not_lt.2 hneg), readPower?_toDigits (.inl rfl), if_neg (by decide), Int.natCast_natAbs,
          abs_of_nonneg hneg]
    simp only [powerChars, readExponent?, true_or, if_true, hpower, Option.map_some]

theorem read?_chars {n : Numeral} (h : n.IsWritten) : read? n.chars = some (n, []) := by
  have hrest (c : Char) (cs : List Char) (hcs : fractionChars n.fraction ++ powerChars n.power = c :: cs) :
      c.isDigit = false := by
    rcases head_fractionChars hcs with rfl | rfl <;> rfl
  simp only [read?, chars, readSign_append h, readDigits_append_of h.whole hrest, readFraction_append h.fraction,
    readExponent?_powerChars, Option.map_some]

/-- No sign and no digit is an `e`, so that it stands in front of a power only. -/
theorem chars_eq_of_power {n : Numeral} (h : n.IsWritten) :
    ∃ front, 'e' ∉ front ∧ n.chars = front ++ powerChars n.power := by
  have hdigits {digits : List Char} (hdigits : AreDigits digits) : 'e' ∉ digits := fun he =>
    absurd (hdigits 'e' he) (by decide)
  refine ⟨n.sign.toList ++ (n.whole ++ fractionChars n.fraction), ?_, ?_⟩
  · simp only [List.mem_append, not_or]
    refine ⟨?_, hdigits h.whole, ?_⟩
    · rcases h.sign with hsign | hsign <;> rw [hsign] <;> decide
    · cases hfraction : n.fraction with
      | none => exact List.not_mem_nil
      | some digits => exact List.not_mem_cons_of_ne_of_not_mem (by decide) (hdigits (h.fraction digits hfraction))
  · rw [chars, List.append_assoc, List.append_assoc]

/-! ## The numeral of a decimal -/

theorem digitsValue_replicate_append (n : ℕ) (digits : List Char) :
    digitsValue (List.replicate n '0' ++ digits) = digitsValue digits := by
  rw [digitsValue_append, digitsValue_replicate, Nat.zero_mul, Nat.zero_add]

theorem value_append_replicate (digits : List Char) (n : ℕ) (e : ℤ) :
    (Decimal.mk (digitsValue (digits ++ List.replicate n '0')) e).value =
      (Decimal.mk (digitsValue digits) (e + n)).value := by
  rw [Decimal.value, Decimal.value, digitsValue_append, digitsValue_replicate, List.length_replicate, Nat.add_zero,
    zpow_add₀ (by norm_num), zpow_natCast]
  push_cast
  ring

end Numeral

namespace DecimalStyle
open Numeral

def wholeDigits (digits : List Char) (places : ℤ) : List Char :=
  if places ≤ 0 then ['0'] else digits.take places.toNat ++ List.replicate (places.toNat - digits.length) '0'

def fractionDigits (digits : List Char) (places : ℤ) : List Char :=
  List.replicate (-places).toNat '0' ++ digits.drop places.toNat

/-- A fraction of no digits is left out, or has one zero. -/
def shownFraction (style : DecimalStyle) (digits : List Char) : Option (List Char) :=
  if digits.isEmpty then (if style.pointZero then some ['0'] else none) else some digits

/-- The numeral that is written for a decimal with a sign. -/
def numeral (style : DecimalStyle) (negative plain : Bool) (d : Decimal) : Numeral :=
  let digits := Nat.toDigits 10 d.digits
  let sign := if negative then some '-' else none
  if plain then ⟨sign, wholeDigits digits d.places, style.shownFraction (fractionDigits digits d.places), none⟩
  else ⟨sign, digits.take 1, if digits.tail.isEmpty then none else some digits.tail, some (d.places - 1)⟩

theorem writePlain_toList (style : DecimalStyle) (digits : List Char) (places : ℤ) :
    (style.writePlain digits places).toList =
      wholeDigits digits places ++ fractionChars (style.shownFraction (fractionDigits digits places)) := by
  unfold writePlain
  dsimp only
  rw [shownFraction, fractionDigits, wholeDigits]
  generalize List.replicate (-places).toNat '0' ++ digits.drop places.toNat = fraction
  cases fraction with
  | nil => cases style.pointZero <;> simp [fractionChars]
  | cons c cs => simp [fractionChars]

theorem powerChars_eq (power : ℤ) :
    (if power < 0 then "e-" else "e+").toList ++ (toString power.natAbs).toList = powerChars (some power) := by
  rw [powerChars]
  split <;> simp

theorem writeExponent_toList (c : Char) (cs : List Char) (places : ℤ) :
    (writeExponent (c :: cs) places).toList =
      [c] ++ (fractionChars (if cs.isEmpty then none else some cs) ++ powerChars (some (places - 1))) := by
  rw [← powerChars_eq]
  unfold writeExponent
  cases cs with
  | nil => simp only [String.toList_append, String.toList_ofList, List.append_assoc]; rfl
  | cons c' cs => simp only [String.toList_append, String.toList_ofList, List.append_assoc]; rfl

/-- The text of a decimal is that of its numeral. -/
theorem write_toList (style : DecimalStyle) (negative plain : Bool) (d : Decimal) :
    ((if negative then "-" else "") ++ style.write plain d).toList = (style.numeral negative plain d).chars := by
  have hsign : (if negative then "-" else "").toList = (if negative then some '-' else none).toList := by
    cases negative <;> rfl
  obtain ⟨c, cs, hdigits⟩ := List.exists_cons_of_length_pos (Nat.length_toDigits_pos (b := 10) (n := d.digits))
  rw [String.toList_append, hsign, write, numeral]
  cases plain with
  | true =>
    simp only [if_true, chars, writePlain_toList, powerChars, List.append_nil]
    rfl
  | false =>
    have hplaces : d.exponent + (c :: cs).length = d.places := by rw [← hdigits]; rfl
    simp only [Bool.false_eq_true, if_false, hdigits, hplaces, writeExponent_toList, chars]
    rfl

@[simp]
theorem isNegative_numeral (style : DecimalStyle) (negative plain : Bool) (d : Decimal) :
    (style.numeral negative plain d).isNegative = negative := by
  cases negative <;> cases plain <;> rfl

@[simp]
theorem power_numeral (style : DecimalStyle) (negative plain : Bool) (d : Decimal) :
    (style.numeral negative plain d).power = if plain then none else some (d.places - 1) := by
  cases plain <;> rfl

theorem wholeDigits_ne_nil {digits : List Char} (h : digits ≠ []) (places : ℤ) : wholeDigits digits places ≠ [] := by
  rw [wholeDigits]
  split
  · exact List.cons_ne_nil _ _
  · next hplaces =>
    have hpos : 0 < digits.length := List.length_pos_iff.2 h
    refine List.ne_nil_of_length_pos ?_
    rw [List.length_append, List.length_take, List.length_replicate]
    omega

section
variable {digits : List Char} (h : AreDigits digits)
include h

theorem areDigits_wholeDigits (places : ℤ) : AreDigits (wholeDigits digits places) := by
  rw [wholeDigits]
  split
  · exact areDigits_replicate 1
  · exact areDigits_append (fun c hc => h c (List.mem_of_mem_take hc)) (areDigits_replicate _)

theorem areDigits_fractionDigits (places : ℤ) : AreDigits (fractionDigits digits places) :=
  areDigits_append (areDigits_replicate _) fun c hc => h c (List.mem_of_mem_drop hc)

theorem areDigits_of_shownFraction {style : DecimalStyle} {digits' : List Char}
    (hshown : style.shownFraction digits = some digits') : AreDigits digits' := by
  rw [shownFraction] at hshown
  split at hshown
  · obtain ⟨-, hzero⟩ := Option.ite_none_right_eq_some.1 hshown
    cases hzero
    exact areDigits_replicate 1
  · cases hshown
    exact h

end

theorem isWritten_numeral (style : DecimalStyle) (negative plain : Bool) (d : Decimal) :
    (style.numeral negative plain d).IsWritten := by
  have hdigits := areDigits_toDigits d.digits
  have hne : Nat.toDigits 10 d.digits ≠ [] := List.ne_nil_of_length_pos Nat.length_toDigits_pos
  have hsign : (if negative then some '-' else none) = none ∨ (if negative then some '-' else none) = some '-' := by
    cases negative
    · exact .inl rfl
    · exact .inr rfl
  cases plain with
  | true =>
    exact ⟨hsign, wholeDigits_ne_nil hne _, areDigits_wholeDigits hdigits _, fun digits hshown =>
      areDigits_of_shownFraction (areDigits_fractionDigits hdigits _) hshown⟩
  | false =>
    refine ⟨hsign, ?_, fun c hc => hdigits c (List.mem_of_mem_take hc), fun digits hfraction => ?_⟩
    · exact fun htake => hne (List.take_eq_nil_iff.1 htake |>.resolve_left Nat.one_ne_zero)
    · obtain ⟨-, hsome⟩ := Option.ite_none_left_eq_some.1 hfraction
      cases hsome
      exact fun c hc => hdigits c (List.mem_of_mem_tail hc)

theorem value_shownFraction (style : DecimalStyle) (whole fraction : List Char) :
    (Decimal.mk (digitsValue (whole ++ (style.shownFraction fraction).getD []))
      (0 - ((style.shownFraction fraction).getD []).length)).value =
      (Decimal.mk (digitsValue (whole ++ fraction)) (-fraction.length)).value := by
  rw [shownFraction]
  cases fraction with
  | cons c cs => rw [zero_sub]; rfl
  | nil =>
    cases style.pointZero with
    | false => rfl
    | true => 
      have h := value_append_replicate whole 1 (-1)
      simpa using h

/-- Before the point or behind it, zeros fill the gap between the digits and the point. -/
theorem wholeDigits_append_fractionDigits (digits : List Char) {places : ℤ} (h : 0 < places) :
    wholeDigits digits places ++ fractionDigits digits places =
      digits ++ List.replicate (places.toNat - digits.length) '0' := by
  have hnone : (-places).toNat = 0 := by omega
  rw [wholeDigits, if_neg (not_le.2 h), fractionDigits, hnone, List.replicate_zero, List.nil_append, List.append_assoc]
  rcases le_total digits.length places.toNat with hle | hle
  · rw [List.drop_of_length_le hle, List.take_of_length_le hle, List.append_nil]
  · rw [Nat.sub_eq_zero_of_le hle, List.replicate_zero, List.nil_append, List.append_nil, List.take_append_drop]

theorem length_fractionDigits (digits : List Char) (places : ℤ) :
    (fractionDigits digits places).length = (-places).toNat + (digits.length - places.toNat) := by
  rw [fractionDigits, List.length_append, List.length_replicate, List.length_drop]

theorem value_plain (d : Decimal) :
    (Decimal.mk (digitsValue (wholeDigits (Nat.toDigits 10 d.digits) d.places ++
        fractionDigits (Nat.toDigits 10 d.digits) d.places))
      (-(fractionDigits (Nat.toDigits 10 d.digits) d.places).length)).value = d.value := by
  have hplaces : d.exponent = d.places - (Nat.toDigits 10 d.digits).length := (add_sub_cancel_right _ _).symm
  have hd : d.value = (Decimal.mk (digitsValue (Nat.toDigits 10 d.digits))
      (d.places - (Nat.toDigits 10 d.digits).length)).value := by rw [digitsValue_toDigits, ← hplaces]
  rw [hd, length_fractionDigits]
  generalize Nat.toDigits 10 d.digits = digits
  rcases lt_or_ge 0 d.places with hpos | hneg
  · rw [wholeDigits_append_fractionDigits digits hpos, value_append_replicate]
    congr 2
    omega
  · have hwhole : wholeDigits digits d.places = List.replicate 1 '0' := if_pos hneg
    rw [hwhole, digitsValue_replicate_append, fractionDigits, digitsValue_replicate_append, Int.toNat_of_nonpos hneg,
      List.drop_zero]
    congr 2
    omega

/-- The numeral stands for the decimal. -/
theorem value_numeral (style : DecimalStyle) (negative plain : Bool) (d : Decimal) :
    (style.numeral negative plain d).magnitude.value = d.value := by
  cases plain with
  | true => exact (value_shownFraction ..).trans (value_plain d)
  | false =>
    obtain ⟨c, cs, hcons⟩ := List.exists_cons_of_length_pos (Nat.length_toDigits_pos (b := 10) (n := d.digits))
    have hfraction : (if cs.isEmpty then none else some cs).getD [] = cs := by cases cs <;> rfl
    have hplaces : d.places = d.exponent + (c :: cs).length := by rw [← hcons]; rfl
    have hexponent : d.places - 1 - cs.length = d.exponent := by
      rw [hplaces, List.length_cons]
      omega
    have hmagnitude : (style.numeral negative false d).magnitude = d := by
      simp only [numeral, magnitude, allDigits, hcons, Bool.false_eq_true, if_false, List.tail_cons, hfraction,
        Option.getD_some, hexponent]
      show Decimal.mk (digitsValue (c :: cs)) d.exponent = d
      rw [← hcons, digitsValue_toDigits]
    rw [hmagnitude]

end DecimalStyle

end Conform

import Conform.Proofs.NumberText
/- How long previews get. Of an integer, of a long text and of an array digits are shown, whose number grows so slowly that
   it is bounded by the bits they are held in (`InRange`), and a number has no more than seventeen digits and stands close
   to its point or has an exponent of three digits (`length_numberText_le`). Only four texts are shown whole: the description
   of a symbol, the name of a function, the class of an object and the name of an error. A preview is little more than
   such a text, or it is short (`isFramed`). No other bound holds, and both are reached (`preview_length_greatest`). -/
namespace Conform

/-! ## Texts of numbers -/

namespace DecimalStyle
open Numeral

theorem length_wholeDigits_le (digits : List Char) (places : ℤ) :
    (wholeDigits digits places).length ≤ max 1 places.toNat := by
  rw [wholeDigits]
  split
  · exact le_max_left _ _
  · rw [List.length_append, List.length_take, List.length_replicate]
    omega

theorem length_shownFraction_le (style : DecimalStyle) (digits : List Char) :
    (fractionChars (style.shownFraction digits)).length ≤ digits.length + 2 := by
  rw [shownFraction]
  split
  · split
    · exact Nat.le_add_left _ _
    · exact Nat.zero_le _
  · exact Nat.le_succ _

theorem length_sign_le (negative : Bool) : (if negative then some '-' else none).toList.length ≤ 1 := by
  cases negative <;> decide

/-- Positional numerals are as long as their digits and the zeros between them and the point. -/
theorem length_plain_le (style : DecimalStyle) (negative : Bool) {d : Decimal} (hdigits : Decimal.digitCount d.digits ≤ 17)
    (hlow : -6 ≤ d.places) (hhigh : d.places ≤ 21) : (style.numeral negative true d).chars.length ≤ 27 := by
  have hsign := length_sign_le negative
  have hwhole := length_wholeDigits_le (Nat.toDigits 10 d.digits) d.places
  have hshown := style.length_shownFraction_le (fractionDigits (Nat.toDigits 10 d.digits) d.places)
  have hfraction := length_fractionDigits (Nat.toDigits 10 d.digits) d.places
  rw [Decimal.digitCount] at hdigits
  simp only [numeral, if_true, chars, powerChars, List.append_nil, List.length_append]
  omega

theorem length_exponent_le (style : DecimalStyle) (negative : Bool) {d : Decimal}
    (hdigits : Decimal.digitCount d.digits ≤ 17) (hpower : (d.places - 1).natAbs < 10 ^ 3) :
    (style.numeral negative false d).chars.length ≤ 27 := by
  have hsign := length_sign_le negative
  have hcount : (Nat.toDigits 10 (d.places - 1).natAbs).length ≤ 3 := (Decimal.digitCount_le_iff (by decide)).2 hpower
  have hfraction : (fractionChars (if (Nat.toDigits 10 d.digits).tail.isEmpty then none
      else some (Nat.toDigits 10 d.digits).tail)).length ≤ 17 := by
    split
    · exact Nat.zero_le _
    · rw [fractionChars, List.length_cons, List.length_tail]
      rw [Decimal.digitCount] at hdigits
      omega
  simp only [numeral, Bool.false_eq_true, if_false, chars, powerChars, List.length_append, List.length_cons,
    List.length_take]
  omega

end DecimalStyle

namespace Binary64

theorem places_of_nearestAt {x : Binary64} (hx : x.isFinite = true) (hne : x.isZero = false) {d : Decimal}
    (hd : NearestAt d.value x.magnitude) : -330 ≤ d.places ∧ d.places ≤ 310 := by
  have hzero : x.magnitude ≠ 0 := of_decide_eq_false hne
  have hfinite : x.magnitude < infinityMagnitude := of_decide_eq_true hx
  have hdigits := digits_ne_zero_of_nearestAt (units_ne_zero_iff.2 hne) hd
  constructor
  · exact not_lt.1 fun h => hzero (hd.unique (nearestAt_zero_of_places h))
  · exact not_lt.1 fun h => hfinite.not_ge (infinityMagnitude_le_of_places hdigits h hd)

end Binary64

namespace Value
open Binary64 (NearestAt)

/-- Between 1e-7 and 1e21, the digits start close to the point. -/
theorem places_of_isPlain {n : Binary64} (hne : n.isZero = false) (hplain : n.isPlain numberStyle = true) {d : Decimal}
    (hd : NearestAt d.value n.magnitude) : -6 ≤ d.places ∧ d.places ≤ 21 := by
  rw [Binary64.isPlain, hne, Bool.false_or, Bool.and_eq_true, decide_eq_true_eq, decide_eq_true_eq] at hplain
  have hdigits := Binary64.digits_ne_zero_of_nearestAt (Binary64.units_ne_zero_iff.2 hne) hd
  have hstep : (Binary64.ofDecimal false ⟨1, -7⟩).magnitude < (Binary64.ofDecimal false ⟨1, -6⟩).magnitude := by
    decide +kernel
  have hleast : NearestAt (Decimal.mk 1 (-7)).value (Binary64.ofDecimal false ⟨1, -7⟩).magnitude :=
    Binary64.nearestAt_ofDecimal (by decide +kernel)
  have hgreatest : NearestAt (Decimal.mk 1 21).value (Binary64.ofDecimal false ⟨1, 21⟩).magnitude :=
    Binary64.nearestAt_ofDecimal (by decide +kernel)
  have hlow := hleast.lt hd (hstep.trans_le hplain.1)
  have hhigh := hd.lt hgreatest hplain.2
  have hone (e : ℤ) : (Decimal.mk 1 e).value = 10 ^ e := by rw [Decimal.value, Nat.cast_one, one_mul]
  rw [hone] at hlow hhigh
  have hfrom := (zpow_lt_zpow_iff_right₀ (by norm_num)).1 (hlow.trans d.value_lt)
  have hbelow := (zpow_lt_zpow_iff_right₀ (by norm_num)).1 ((Decimal.le_value hdigits).trans_lt hhigh)
  omega

theorem length_write_le {n : Binary64} (hn : n.isFinite = true) : (n.write numberStyle).length ≤ 27 := by
  have hdigits := (Binary64.digitCount_shortest_le hn numberStyle.tie).1
  have hnearest := Binary64.nearestAt_shortest hn numberStyle.tie
  rw [← String.length_toList, Binary64.write_toList, Binary64.numeral]
  cases hzero : n.isZero with
  | true =>
    have hplain : n.isPlain numberStyle = true := Binary64.isPlain_iff.2 (.inl hzero)
    rw [hplain]
    refine numberStyle.length_plain_le _ hdigits ?_ ?_ <;> rw [Binary64.shortest_of_isZero hzero] <;> decide
  | false =>
    cases hplain : n.isPlain numberStyle with
    | true =>
      obtain ⟨hlow, hhigh⟩ := places_of_isPlain hzero hplain hnearest
      exact numberStyle.length_plain_le _ hdigits hlow hhigh
    | false =>
      obtain ⟨hlow, hhigh⟩ := Binary64.places_of_nearestAt hn hzero hnearest
      refine numberStyle.length_exponent_le _ hdigits ?_
      omega

theorem length_numberText_le (n : Binary64) : (numberText n).length ≤ 27 := by
  rw [numberText]
  split
  · decide
  · next hnan =>
    split
    · split <;> decide
    · next hinfinite =>
      exact length_write_le ((Binary64.isNaN_eq_false_iff.1 (Bool.eq_false_iff.2 hnan)).resolve_right hinfinite)

/-! ## Previews -/

/-- The text of a value that its preview shows whole. -/
def uncut : Value → String
  | symbol description => description.getD ""
  | function name _ => name.getD ""
  | object tag _ => tag.getD ""
  | error name _ => name
  | _ => ""

/-- The integer has at most 128 bits, and the length that is shown at most 64. -/
def InRange : Value → Prop
  | bigint n => -2 ^ 127 ≤ n ∧ n < 2 ^ 127
  | string s => s.length < 2 ^ 64
  | array items => items.length < 2 ^ 64
  | _ => True

theorem length_toString_le_iff {n k : ℕ} (hk : 0 < k) : (toString n).length ≤ k ↔ n < 10 ^ k := by
  rw [← Decimal.digitCount_le_iff hk, Decimal.digitCount, Nat.toString_eq_ofList_toDigits, String.length_ofList]

theorem length_toString_int_le {n : ℤ} {k : ℕ} (hk : 0 < k) (h : n.natAbs < 10 ^ k) : (toString n).length ≤ k + 1 := by
  cases n with
  | ofNat n => exact ((length_toString_le_iff hk).2 h).trans (Nat.le_succ k)
  | negSucc n =>
    have hlength : (toString (Int.negSucc n)).length = 1 + (toString (n + 1)).length := String.length_append "-" _
    have hdigits : (toString (n + 1)).length ≤ k := (length_toString_le_iff hk).2 h
    omega

theorem length_textPreview_of_long {s : String} (h : maxTextPreview < s.length) :
    (textPreview s).length = 46 + (toString s.length).length := by
  have hfront : "[string \"".length = 9 := by decide
  have hmiddle : "...\" (".length = 6 := by decide
  have hback : ")]".length = 2 := by decide
  have hhead : textPreviewHead = 29 := rfl
  rw [textPreview_of_long h]
  simp only [String.length_append, length_textHead h, hfront, hmiddle, hback]
  omega

theorem length_textPreview_of_short {s : String} (h : s.length ≤ maxTextPreview) :
    (textPreview s).length = 11 + s.length := by
  have hfront : "[string \"".length = 9 := by decide
  have hback : "\"]".length = 2 := by decide
  rw [textPreview_of_short h]
  simp only [String.length_append, hfront, hback]
  omega

theorem length_textPreview_le {s : String} (hs : s.length < 2 ^ 64) : (textPreview s).length ≤ 66 := by
  rcases Nat.lt_or_ge maxTextPreview s.length with hlong | hshort
  · have hdigits : (toString s.length).length ≤ 20 := (length_toString_le_iff (by decide)).2 (hs.trans (by decide))
    rw [length_textPreview_of_long hlong]
    omega
  · have hmax : maxTextPreview = 32 := rfl
    rw [length_textPreview_of_short hshort]
    omega

/-- The preview is the text that is shown whole with something around it: little, or else there is no such text. -/
def IsFramed (v : Value) : Prop :=
  ∃ front back : String, v.preview = front ++ v.uncut ++ back ∧
    (front.length + back.length ≤ 11 ∨ v.uncut = "" ∧ front.length + back.length ≤ 66)

theorem isFramed_of_uncut_eq {v : Value} (h : v.uncut = "") (front text back : String)
    (hpreview : v.preview = front ++ text ++ back) (hlength : front.length + text.length + back.length ≤ 66) :
    v.IsFramed := by
  refine ⟨front ++ text, back, ?_, .inr ⟨h, by rwa [String.length_append]⟩⟩
  rw [h, String.append_empty, hpreview]

theorem isFramed {v : Value} (hv : v.InRange) : v.IsFramed := by
  cases v with
  | undefined => exact isFramed_of_uncut_eq rfl "[" "undefined" "]" rfl (by decide)
  | null => exact isFramed_of_uncut_eq rfl "[" "null" "]" rfl (by decide)
  | bool b =>
    refine isFramed_of_uncut_eq rfl "[boolean " _ "]" rfl ?_
    cases b <;> decide
  | number n =>
    have hfront : "[number ".length = 8 := by decide
    have hback : "]".length = 1 := by decide
    have htext := length_numberText_le n
    refine isFramed_of_uncut_eq rfl "[number " (numberText n) "]" rfl ?_
    omega
  | bigint n =>
    have hfront : "[bigint ".length = 8 := by decide
    have hback : "]".length = 1 := by decide
    have hsize : n.natAbs < 10 ^ 39 := by
      obtain ⟨hlow, hhigh⟩ := hv
      omega
    have htext := length_toString_int_le (by decide) hsize
    refine isFramed_of_uncut_eq rfl "[bigint " (toString n) "]" rfl ?_
    omega
  | string s =>
    have hnone : "".length = 0 := by decide
    have htext := length_textPreview_le hv
    refine isFramed_of_uncut_eq rfl "" (textPreview s) "" ?_ ?_
    · rw [String.empty_append, String.append_empty]
      rfl
    · omega
  | array items =>
    have hfront : "[array (".length = 8 := by decide
    have hback : ")]".length = 2 := by decide
    have htext : (toString items.length).length ≤ 20 := (length_toString_le_iff (by decide)).2 (hv.trans (by decide))
    refine isFramed_of_uncut_eq rfl "[array (" (toString items.length) ")]" ?_ ?_
    · rfl
    · omega
  | symbol description =>
    cases description with
    | none => exact isFramed_of_uncut_eq rfl "[" "symbol" "]" rfl (by decide)
    | some description => exact ⟨"[symbol (", ")]", rfl, .inl (by decide)⟩
  | function name async =>
    by_cases hname : name.getD "" = ""
    · refine isFramed_of_uncut_eq hname "[function " "(anonymous)" "]" ?_ (by decide)
      rw [preview, functionPreview, hname]
      rfl
    · refine ⟨"[function ", "]", ?_, .inl (by decide)⟩
      have hne : (name.getD "").isEmpty = false := by
        rw [Bool.eq_false_iff, ne_eq, String.isEmpty_iff]
        exact hname
      simp only [preview, functionPreview, hne, Bool.false_eq_true, if_false]
      rfl
  | object tag fields =>
    cases tag with
    | none => exact isFramed_of_uncut_eq rfl "[object " "Object" "]" rfl (by decide)
    | some tag => exact ⟨"[object ", "]", rfl, .inl (by decide)⟩
  | error name message => exact ⟨"[object ", "]", rfl, .inl (by decide)⟩
  | regex source => exact isFramed_of_uncut_eq rfl "[object " "RegExp" "]" rfl (by decide)
  | promise => exact isFramed_of_uncut_eq rfl "[object " "Promise" "]" rfl (by decide)
  | set items => exact isFramed_of_uncut_eq rfl "[object " "Set" "]" rfl (by decide)
  | map entries => exact isFramed_of_uncut_eq rfl "[object " "Map" "]" rfl (by decide)

theorem preview_length_le {v : Value} (hv : v.InRange) : v.preview.length ≤ max 66 (v.uncut.length + 11) := by
  obtain ⟨front, back, hpreview, hlength⟩ := isFramed hv
  rw [hpreview, String.length_append, String.length_append]
  rcases hlength with hlength | ⟨hempty, hlength⟩
  · omega
  · have hnone : "".length = 0 := by decide
    rw [hempty]
    omega

/-! ## Long texts -/

def letters (n : ℕ) : String :=
  String.ofList (List.replicate n 'a')

theorem length_letters (n : ℕ) : (letters n).length = n := by
  rw [letters, String.length_ofList, List.length_replicate]

theorem length_preview_symbol (description : String) :
    (symbol (some description)).preview.length = description.length + 11 := by
  have hfront : "[symbol (".length = 9 := by decide
  have hback : ")]".length = 2 := by decide
  simp only [preview, String.length_append, hfront, hback]
  omega

/-- A text of which the length has twenty digits has the longest preview. -/
theorem exists_long_text : ∃ s : String, s.length < 2 ^ 64 ∧ (textPreview s).length = 66 := by
  obtain ⟨n, hlow, hhigh⟩ : ∃ n : ℕ, 10 ^ 19 ≤ n ∧ n < 2 ^ 64 := ⟨10 ^ 19, le_rfl, by decide⟩
  refine ⟨letters n, by rwa [length_letters], ?_⟩
  have hlong : maxTextPreview < (letters n).length := by
    rw [length_letters]
    exact lt_of_lt_of_le (by decide) hlow
  have hdigits : (toString n).length = 20 := by
    have hle : (toString n).length ≤ 20 := (length_toString_le_iff (by decide)).2 (hhigh.trans (by decide))
    have hlt : ¬ (toString n).length ≤ 19 := fun h => ((length_toString_le_iff (by decide)).1 h).not_ge hlow
    omega
  rw [length_textPreview_of_long hlong, length_letters, hdigits]

/-- The greatest length of a preview. It is that of a long text, unless a text that is shown whole is about as long. -/
theorem preview_length_greatest (limit : ℕ) :
    IsGreatest {length | ∃ v : Value, v.InRange ∧ v.uncut.length ≤ limit ∧ v.preview.length = length}
      (max 66 (limit + 11)) := by
  constructor
  · rcases le_total (limit + 11) 66 with hshort | hlong
    · obtain ⟨s, hs, hlength⟩ := exists_long_text
      refine ⟨string s, hs, Nat.zero_le _, ?_⟩
      rw [max_eq_left hshort]
      exact hlength
    · refine ⟨symbol (some (letters limit)), trivial, (length_letters limit).le, ?_⟩
      rw [max_eq_right hlong, length_preview_symbol, length_letters]
  · rintro length ⟨v, hv, huncut, rfl⟩
    exact (preview_length_le hv).trans (max_le_max_left _ (Nat.add_le_add_right huncut _))

/-- No number that texts can have more characters than bounds the previews, and no number at all bounds them if texts are of
    any length. -/
theorem preview_length_unbounded :
    (∀ n < 2 ^ 64, ∃ v : Value, v.InRange ∧ v.uncut.length < 2 ^ 64 ∧ n < v.preview.length) ∧
    ¬ ∃ n, ∀ v : Value, v.InRange → v.preview.length ≤ n := by
  have hlonger (n : ℕ) : n < (symbol (some (letters n))).preview.length := by
    rw [length_preview_symbol, length_letters]
    omega
  constructor
  · exact fun n hn => ⟨symbol (some (letters n)), trivial, (length_letters n).trans_lt hn, hlonger n⟩
  · rintro ⟨n, hn⟩
    exact (hlonger n).not_ge (hn (symbol (some (letters n))) trivial)

end Value

end Conform

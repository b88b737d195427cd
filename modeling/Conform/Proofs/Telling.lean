import Mathlib
import Conform.Value
/- What a preview tells of a value. Texts, names and descriptions stand in previews as they are, so that they may hold
   anything that previews are made of. What can be read back is found from both ends: the word at the front gives the kind
   of a value, or that it is a composite (`word_preview`), and what stands around the rest has a fixed length for each
   kind. The two forms of a text end in other characters, and the longer one has a head of fixed length
   (`textPreview_eq_iff`). So equal previews belong to values that are alike in all that is shown (`preview_tells_apart`). -/
namespace Conform

namespace Text

/-! ## Texts that are put together -/

theorem append_inj_of_front {s t x y : String} (h : s ++ x = t ++ y) (hlength : s.length = t.length) : s = t ∧ x = y := by
  have hchars := congrArg String.toList h
  rw [String.toList_append, String.toList_append] at hchars
  have hparts := List.append_inj hchars (by rwa [String.length_toList, String.length_toList])
  exact ⟨String.toList_inj.1 hparts.1, String.toList_inj.1 hparts.2⟩

theorem append_inj_of_back {s t x y : String} (h : s ++ x = t ++ y) (hlength : x.length = y.length) : s = t ∧ x = y := by
  have hchars := congrArg String.toList h
  rw [String.toList_append, String.toList_append] at hchars
  have hparts := List.append_inj' hchars (by rwa [String.length_toList, String.length_toList])
  exact ⟨String.toList_inj.1 hparts.1, String.toList_inj.1 hparts.2⟩

theorem between_inj {front back x y : String} : front ++ x ++ back = front ++ y ++ back ↔ x = y := by
  rw [String.append_left_inj, String.append_right_inj]

end Text

namespace Value

/-! ## The word at the front -/

/-- The characters behind the bracket up to a blank or a bracket. -/
def word (preview : String) : List Char :=
  (preview.toList.drop 1).takeWhile fun c => c ≠ ' ' && c ≠ ']'

/-- What a preview calls the value: its kind, or an object if it is a composite. -/
def calledAs (v : Value) : String :=
  if v.isComposite then "object" else v.kind

theorem word_textPreview (s : String) : word (textPreview s) = "string".toList := by
  rw [textPreview]
  split <;> simp [word]

theorem word_preview (v : Value) : word v.preview = v.calledAs.toList := by
  cases v with
  | string s => exact word_textPreview s
  | symbol description => cases description <;> simp [word, preview, calledAs, isComposite, kind]
  | _ => simp [word, preview, functionPreview, calledAs, isComposite, kind]

theorem calledAs_eq_of_preview_eq {a b : Value} (h : a.preview = b.preview) : a.calledAs = b.calledAs := by
  rw [← String.toList_inj, ← word_preview, ← word_preview, h]

theorem kind_ne_object {v : Value} (h : v.isComposite = false) : v.kind ≠ "object" := by
  cases v with
  | object _ _ | regex _ | error _ _ | promise | set _ | map _ => cases h
  | _ => simp [kind]

theorem isComposite_eq_of_calledAs_eq {a b : Value} (h : a.calledAs = b.calledAs) : a.isComposite = b.isComposite := by
  rw [calledAs, calledAs] at h
  cases ha : a.isComposite <;> cases hb : b.isComposite <;> rw [ha, hb] at h
  · exact absurd h (kind_ne_object ha)
  · exact absurd h.symm (kind_ne_object hb)

/-! ## Composites -/

theorem preview_of_isComposite {v : Value} (h : v.isComposite = true) :
    v.preview = "[object " ++ v.className?.getD "Object" ++ "]" := by
  cases v <;> first | rfl | cases h

theorem preview_eq_iff_of_isComposite {a b : Value} (ha : a.isComposite = true) (hb : b.isComposite = true) :
    a.preview = b.preview ↔ a.className? = b.className? := by
  obtain ⟨c, hc⟩ := Option.isSome_iff_exists.1 (a.className?_isSome.trans ha)
  obtain ⟨d, hd⟩ := Option.isSome_iff_exists.1 (b.className?_isSome.trans hb)
  rw [preview_of_isComposite ha, preview_of_isComposite hb, Text.between_inj, hc, hd, Option.getD_some, Option.getD_some,
    Option.some.injEq]

/-! ## Texts -/

theorem textPreview_of_short {s : String} (h : s.length ≤ maxTextPreview) :
    textPreview s = "[string \"" ++ s ++ "\"]" :=
  if_pos h

theorem textPreview_of_long {s : String} (h : maxTextPreview < s.length) :
    textPreview s =
      "[string \"" ++ String.ofList (s.toList.take textPreviewHead) ++ "...\" (" ++ toString s.length ++ ")]" :=
  if_neg (Nat.not_le.2 h)

/-- The last two characters tell a text that is shown whole from one that is not. -/
theorem textPreview_ne {s t : String} (hs : s.length ≤ maxTextPreview) (ht : maxTextPreview < t.length) :
    textPreview s ≠ textPreview t := by
  rw [textPreview_of_short hs, textPreview_of_long ht]
  intro h
  have hback : "\"]" = ")]" := (Text.append_inj_of_back h (by decide)).2
  exact absurd hback (by simp)

theorem length_textHead {s : String} (h : maxTextPreview < s.length) :
    (String.ofList (s.toList.take textPreviewHead)).length = textPreviewHead := by
  have hhead : textPreviewHead ≤ maxTextPreview := by decide
  rw [String.length_ofList, List.length_take, String.length_toList]
  omega

/-- Longer texts show their heads and lengths. The head has a length of its own, so that it does not matter what it holds. -/
theorem textPreview_eq_iff_of_long {s t : String} (hs : maxTextPreview < s.length) (ht : maxTextPreview < t.length) :
    textPreview s = textPreview t ↔
      s.length = t.length ∧ s.toList.take textPreviewHead = t.toList.take textPreviewHead := by
  rw [textPreview_of_long hs, textPreview_of_long ht]
  constructor
  · intro h
    simp only [String.append_assoc] at h
    have hheads := (String.append_right_inj _).1 h
    obtain ⟨hhead, hrest⟩ := Text.append_inj_of_front hheads ((length_textHead hs).trans (length_textHead ht).symm)
    rw [String.append_right_inj, String.append_left_inj] at hrest
    exact ⟨Nat.repr_inj.1 hrest, String.ofList_injective hhead⟩
  · rintro ⟨hlength, hhead⟩
    rw [hlength, hhead]

theorem textPreview_eq_iff (s t : String) :
    textPreview s = textPreview t ↔ s = t ∨ (maxTextPreview < s.length ∧ s.length = t.length ∧
      s.toList.take textPreviewHead = t.toList.take textPreviewHead) := by
  rcases Nat.lt_or_ge maxTextPreview s.length with hs | hs <;>
    rcases Nat.lt_or_ge maxTextPreview t.length with ht | ht
  · rw [textPreview_eq_iff_of_long hs ht, and_iff_right hs, or_iff_right_of_imp]
    rintro rfl
    exact ⟨rfl, rfl⟩
  · refine iff_of_false (textPreview_ne ht hs).symm ?_
    rintro (rfl | ⟨-, hlength, -⟩) <;> omega
  · refine iff_of_false (textPreview_ne hs ht) ?_
    rintro (rfl | ⟨hlong, -, -⟩) <;> omega
  · rw [textPreview_of_short hs, textPreview_of_short ht, Text.between_inj, or_iff_left]
    rintro ⟨hlong, -, -⟩
    omega

/-! ## All values -/

/-- The name that is shown for a function. A missing name and an empty one are shown as a name of their own. -/
def shownName (name : Option String) : String :=
  if (name.getD "").isEmpty then "(anonymous)" else name.getD ""

theorem functionPreview_eq (name : Option String) : functionPreview name = "[function " ++ shownName name ++ "]" :=
  rfl

/-- What two values of one kind have in common if they have one preview. -/
def ShownAlike : Value → Value → Prop
  | bool b, bool b' => b = b'
  | number n, number n' => numberText n = numberText n'
  | bigint n, bigint n' => n = n'
  | string s, string t =>
    s = t ∨ (32 < s.length ∧ s.length = t.length ∧ s.toList.take 29 = t.toList.take 29)
  | symbol description, symbol description' => description = description'
  | array items, array items' => items.length = items'.length
  | function name _, function name' _ => shownName name = shownName name'
  | _, _ => True

theorem preview_symbol_eq_iff (description description' : Option String) :
    (symbol description).preview = (symbol description').preview ↔ description = description' := by
  have hne (d : String) : (symbol none).preview ≠ (symbol (some d)).preview := by
    rw [preview, preview, String.append_assoc]
    intro h
    exact absurd (congrArg (fun preview => preview.toList[7]?) h) (by simp)
  cases description with
  | none =>
    cases description' with
    | none => exact iff_of_true rfl rfl
    | some d => exact iff_of_false (hne d) nofun
  | some d =>
    cases description' with
    | none => exact iff_of_false (hne d).symm nofun
    | some d' => rw [preview, preview, Text.between_inj, Option.some.injEq]

/-- For values of one kind that are no composites, the previews are compared by what stands between fixed texts. -/
theorem preview_eq_iff_shownAlike {a b : Value} (hkind : a.kind = b.kind) (ha : a.isComposite = false) :
    a.preview = b.preview ↔ ShownAlike a b := by
  cases a with
  | undefined | null =>
    cases b with
    | undefined | null => first | exact iff_of_true rfl trivial | simp [kind] at hkind
    | _ => simp [kind] at hkind
  | bool c =>
    cases b with
    | bool d =>
      rw [preview, preview, Text.between_inj, ShownAlike]
      cases c <;> cases d <;> decide
    | _ => simp [kind] at hkind
  | number m =>
    cases b with
    | number n => rw [preview, preview, Text.between_inj, ShownAlike]
    | _ => simp [kind] at hkind
  | bigint m =>
    cases b with
    | bigint n =>
      rw [preview, preview, Text.between_inj, ShownAlike, Int.toString_eq_repr, Int.toString_eq_repr, Int.repr_inj]
    | _ => simp [kind] at hkind
  | string s =>
    cases b with
    | string t =>
      rw [preview, preview, textPreview_eq_iff, ShownAlike]
      rfl
    | _ => simp [kind] at hkind
  | symbol d =>
    cases b with
    | symbol d' => exact preview_symbol_eq_iff d d'
    | _ => simp [kind] at hkind
  | array items =>
    cases b with
    | array items' =>
      rw [preview, preview, Text.between_inj, ShownAlike, Nat.toString_eq_repr, Nat.toString_eq_repr, Nat.repr_inj]
    | _ => simp [kind] at hkind
  | function name async =>
    cases b with
    | function name' async' =>
      rw [preview, preview, functionPreview_eq, functionPreview_eq, Text.between_inj, ShownAlike]
    | _ => simp [kind] at hkind
  | _ => cases ha

/-- Two values have one preview exactly if they are composites of one class, or of one kind and alike in what is shown of
    them. A text that is shown whole never looks like one that is not, whatever its characters are. -/
theorem preview_tells_apart (a b : Value) :
    (a.preview = b.preview ↔
      (a.isComposite = true ∧ b.isComposite = true ∧ a.className? = b.className?) ∨
      (a.isComposite = false ∧ a.kind = b.kind ∧ ShownAlike a b)) ∧
    ∀ s t : String, s.length ≤ 32 → 32 < t.length → (string s).preview ≠ (string t).preview := by
  refine ⟨⟨fun h => ?_, ?_⟩, fun s t => textPreview_ne⟩
  · have hcalled := calledAs_eq_of_preview_eq h
    have hcomposite := isComposite_eq_of_calledAs_eq hcalled
    cases ha : a.isComposite with
    | true =>
      have hb : b.isComposite = true := hcomposite.symm.trans ha
      exact .inl ⟨rfl, hb, (preview_eq_iff_of_isComposite ha hb).1 h⟩
    | false =>
      have hb : b.isComposite = false := hcomposite.symm.trans ha
      have hkind : a.kind = b.kind := by
        rw [calledAs, calledAs, ha, hb] at hcalled
        exact hcalled
      exact .inr ⟨rfl, hkind, (preview_eq_iff_shownAlike hkind ha).1 h⟩
  · rintro (⟨ha, hb, hclass⟩ | ⟨ha, hkind, hshown⟩)
    · exact (preview_eq_iff_of_isComposite ha hb).2 hclass
    · exact (preview_eq_iff_shownAlike hkind ha).2 hshown

-- three functions that look like one, as nothing is asked of what is not shown
example : (function none true).preview = (function (some "(anonymous)") false).preview ∧
    (function (some "") false).preview = (function none true).preview := by decide

end Value

end Conform

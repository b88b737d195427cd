import Conform.Proofs.Placement
/- One step of expansion leaves nothing to expand (`expansion_is_final`). The keys that a dotted key stands for are not
   dotted where the mode looks, and merging brings in no others; so an expanded value is handed back as it is when it is
   to be expanded again, and a value is made anew exactly if it is an object in which the mode finds a dotted key.
   Whether a value was handed back or made anew cannot be seen from the result: where there is nothing to find, expansion
   would put the same value together again, and nowhere else (`shortcut_is_invisible`). -/
namespace Conform.Expansion

/-! ## What a mode finds -/

/-- The mode looks at the keys of the other value: only at those of the value itself, or also at those of every object that is
    reached from it. -/
def LooksAt : Expansion → Value → Value → Prop
  | shallow, v, w => w = v
  | deep, v, w => v.Reaches w

theorem looksAt_self (mode : Expansion) (v : Value) : mode.LooksAt v v := by
  cases mode with
  | shallow => rfl
  | deep => exact .refl

/-- There is a dotted key where the mode looks. -/
def Finds (mode : Expansion) (v : Value) : Prop :=
  ∃ w, mode.LooksAt v w ∧ ∃ entry ∈ w.fields, isDotted entry.1 = true

theorem applies_iff {mode : Expansion} {v : Value} : mode.applies v = true ↔ mode.Finds v := by
  cases mode with
  | shallow => simp [applies, Finds, LooksAt]
  | deep =>
    rw [applies, ← Bool.not_eq_false, hasDottedKey_eq_false_iff]
    simp [Finds, LooksAt, Value.EveryKey]

theorem isObject_of_finds {mode : Expansion} {v : Value} (h : mode.Finds v) : v.isObject = true := by
  rw [← applies_iff] at h
  cases v with
  | object tag fields => rfl
  | _ => cases mode <;> cases h

/-! ## Nothing is left to find -/

theorem isDotted_keyPath (mode : Expansion) (key : String) : isDotted (mode.keyPath key).1 = false := by
  cases mode with
  | deep => exact (isDotted_keyPath_deep key).1
  | shallow =>
    unfold keyPath
    cases hkey : isDotted key with
    | false => exact hkey
    | true =>
      cases hsplit : Text.splitOnceChars '.' key.toList with
      | none => simp [isDotted, Text.splitOnce, hsplit] at hkey
      | some parts =>
        have hhead : isDotted (String.ofList parts.1) = false := by
          apply isDotted_eq_false_of_notMem
          rw [String.toList_ofList]
          exact Text.notMem_of_splitOnceChars hsplit
        simpa [Text.splitOnce, hsplit] using hhead

theorem applies_expand (mode : Expansion) (v : Value) : mode.applies (mode.expand v) = false := by
  cases mode with
  | deep => exact hasDottedKey_expandDeep v
  | shallow =>
    rw [applies, fields_expand, List.any_eq_false]
    intro entry hentry
    have hname : entry.1 ∈ Entries.names (placeAll .shallow (Entries.mapValues shallow.inward v.fields)) :=
      List.mem_map_of_mem hentry
    rcases mem_names_foldl_place.1 hname with hname | ⟨old, -, hname⟩
    · cases hname
    · rw [← hname, isDotted_keyPath]
      exact Bool.false_ne_true

theorem applies_apply (mode : Expansion) (v : Value) : mode.applies (apply (some mode) v) = false := by
  cases h : mode.applies v with
  | true => rw [apply_of_applies h, applies_expand]
  | false => rw [apply_of_not_applies h, h]

theorem expand?_eq_none_iff {mode : Expansion} {v : Value} : mode.expand? v = none ↔ mode.applies v = false := by
  rw [expand?, ite_eq_right_iff, ← Bool.not_eq_true]
  exact forall_congr' fun _ => iff_of_false (Option.some_ne_none _) id

/-- In an expanded value there is no dotted key where the mode looks, so that nothing is made anew if it is expanded again:
    it is handed back as it is. A value is made anew if and only if it is an object and the mode finds a dotted key in
    it. An object keeps its class. -/
theorem expansion_is_final (mode : Expansion) (v : Value) :
    ¬mode.Finds (apply (some mode) v) ∧
    (mode.expand? (apply (some mode) v) = none ∧ apply (some mode) (apply (some mode) v) = apply (some mode) v) ∧
    ((mode.expand? v).isSome = true ↔ v.isObject = true ∧ mode.Finds v) ∧
    ∀ tag fields, v = .object tag fields → ∃ expanded, apply (some mode) v = .object tag expanded := by
  have hnone := applies_apply mode v
  refine ⟨?_, ⟨expand?_eq_none_iff.2 hnone, apply_of_not_applies hnone⟩, ?_, ?_⟩
  · rw [← applies_iff, hnone]
    exact Bool.false_ne_true
  · rw [Option.isSome_iff_ne_none, ne_eq, expand?_eq_none_iff, Bool.not_eq_false, applies_iff]
    exact ⟨fun h => ⟨isObject_of_finds h, h⟩, fun h => h.2⟩
  · rintro tag fields rfl
    rcases apply_cases (some mode) (.object tag fields) with h | ⟨_, _, expanded, ⟨⟩, h, -⟩
    · exact ⟨fields, h⟩
    · exact ⟨expanded, h⟩

/-! ## Handing a value back is no different from expanding it -/

/-- Expansion makes another value of a value exactly if there is something to expand in it, so that the result is the
    expanded value also where the value is handed back as it is. Objects keep their fields sorted by name, at every
    depth. -/
theorem shortcut_is_invisible (mode : Expansion) {v : Value} (hv : v.Ordered) :
    (mode.applies v = false ↔ mode.expand v = v) ∧ apply (some mode) v = mode.expand v := by
  refine ⟨⟨expand_of_not_applies hv, fun h => ?_⟩, apply_eq_expand mode hv⟩
  rw [← h]
  exact applies_expand mode v

/-- An object inside an object holds keys with dots at their ends only, beside a list with a dotted key in it. -/
theorem shortcut_is_invisible_nested :
    let v : Value := .ofFields (some "T") [("b.", .null), ("a", .ofFields (some "U") [(".x", .bool true), ("..", .undefined)]),
      ("c", .array [.ofFields none [("x.y", .null)]])]
    deep.applies v = false ∧ deep.expand v = v := by
  intro v
  have hinside : (Value.ofFields (some "U") [(".x", .bool true), ("..", .undefined)]).Ordered :=
    Value.ordered_ofFields _ (by simp [Value.Ordered])
  have hitem : (Value.array [.ofFields none [("x.y", .null)]]).Ordered :=
    ⟨Value.ordered_ofFields _ (by simp [Value.Ordered]), trivial⟩
  have hv : v.Ordered := Value.ordered_ofFields _ (by simpa [Value.Ordered] using ⟨hinside, hitem⟩)
  have happlies : deep.applies v = false := rfl
  exact ⟨happlies, (shortcut_is_invisible .deep hv).1.1 happlies⟩

end Conform.Expansion

import Conform.Proofs.Precedence
/- Empty keys. Deep expansion cuts a dotted key at all its dots, also where two dots meet or a dot ends the key, and
   nothing between dots becomes an empty key (`trailing_dot_makes_empty_key`). That is the only way in which one comes
   about: if no dotted key has an empty part, no key of the expanded value is empty, and if a dotted key of the value
   itself has one, the empty key is there, whatever other keys there are (`empty_keys_are_empty_parts`). -/
namespace Conform.Expansion

/-- A key is dotted and nothing stands on one of the sides of one of its dots. -/
def HasEmptyPart (key : String) : Prop :=
  isDotted key = true ∧ "" ∈ Text.split '.' key

instance : DecidablePred HasEmptyPart := fun key =>
  inferInstanceAs (Decidable (isDotted key = true ∧ "" ∈ Text.split '.' key))

theorem ne_empty_of_mem_route {key : String} (hkey : key ≠ "") (hparts : ¬HasEmptyPart key) :
    ∀ k ∈ route .deep key, k ≠ "" := by
  cases hdotted : isDotted key with
  | false =>
    rw [route_of_not_isDotted .deep hdotted, List.forall_mem_singleton]
    exact hkey
  | true =>
    rw [route_deep hdotted]
    rintro k hk rfl
    exact hparts ⟨hdotted, hk⟩

/-- Where no key is empty and no dotted key has an empty part, there is no empty key after deep expansion. -/
theorem everyKey_apply_deep_ne_empty {v : Value} (hkeys : v.EveryKey (· ≠ ""))
    (hparts : v.EveryKey fun key => ¬HasEmptyPart key) : (apply (some .deep) v).EveryKey (· ≠ "") := by
  rw [apply_deep_eq]
  split
  · refine everyKey_expandDeep fun w hw entry hentry => ?_
    exact List.forall_mem_cons.1 (ne_empty_of_mem_route (hkeys w hw entry hentry) (hparts w hw entry hentry))
  · exact hkeys

theorem not_everyKey_of_hasEmptyPart {v : Value} (hv : v.Ordered) {entry : String × Value}
    (hentry : entry ∈ v.fields) (h : HasEmptyPart entry.1) : ¬(apply (some .deep) v).EveryKey (· ≠ "") := by
  intro hnone
  cases v with
  | object tag fields =>
    obtain ⟨x, hx, -⟩ := descend?_apply .deep tag hv.1 hentry h.1
    rw [route_deep h.1] at hx
    obtain ⟨w, hw, found, hfound, hempty⟩ := Value.exists_reaches_of_descend? hx h.2
    exact hnone w hw found hfound hempty
  | _ => cases hentry

/-- Let no key be empty in the value and in the objects that are reached from it through fields. If no dotted key among them
    has an empty part, keys are only cut at dots with text on both sides, and no key is empty after deep expansion
    either. If a dotted key of the value itself has an empty part, there is an empty key. -/
theorem empty_keys_are_empty_parts {v : Value} (hv : v.Ordered) (hkeys : v.EveryKey (· ≠ "")) :
    ((v.EveryKey fun key => ¬HasEmptyPart key) →
      (v.EveryKey fun key => ".".intercalate (route .deep key) = key ∧ ∀ part ∈ route .deep key, part ≠ "") ∧
      (apply (some .deep) v).EveryKey (· ≠ "")) ∧
    ((∃ entry ∈ v.fields, HasEmptyPart entry.1) → ¬(apply (some .deep) v).EveryKey (· ≠ "")) := by
  refine ⟨fun hparts => ⟨fun w hw entry hentry => ⟨intercalate_route .deep entry.1, ?_⟩, ?_⟩, ?_⟩
  · exact ne_empty_of_mem_route (hkeys w hw entry hentry) (hparts w hw entry hentry)
  · exact everyKey_apply_deep_ne_empty hkeys hparts
  · intro h
    obtain ⟨entry, hentry, hpart⟩ := h
    exact not_everyKey_of_hasEmptyPart hv hentry hpart

/-- Keys with dots at their ends stay as they are, at the top and inside, while others beside them are cut. Behind a part that
    is there already, two dots in a row leave an empty key. -/
theorem empty_keys_are_empty_parts_beside :
    let inner : Value := .ofFields (some "T") [("..", .null), ("c.d", .undefined)]
    let kept : Value := .ofFields none [(".a", .null), ("b.", inner), ("e.f", .null)]
    let cut : Value := .ofFields none [("a.b", .ofFields none []), ("a.b..c", .null)]
    (kept.EveryKey (· ≠ "") ∧ (apply (some .deep) kept).EveryKey (· ≠ "")) ∧
    cut.EveryKey (· ≠ "") ∧ ¬(apply (some .deep) cut).EveryKey (· ≠ "") := by
  intro inner kept cut
  have hinner : inner.Ordered := Value.ordered_ofFields _ (by simp [Value.Ordered])
  have hkept : kept.Ordered := Value.ordered_ofFields _ (by simpa [Value.Ordered] using hinner)
  have hempty : (Value.ofFields none []).Ordered := Value.ordered_ofFields _ (by simp)
  have hcut : cut.Ordered := Value.ordered_ofFields _ (by simpa [Value.Ordered] using hempty)
  have hkeptKeys : kept.EveryKey (· ≠ "") := by decide
  have hcutKeys : cut.EveryKey (· ≠ "") := by decide
  have hparts : kept.EveryKey fun key => ¬HasEmptyPart key := by decide
  have hpart : ∃ entry ∈ cut.fields, HasEmptyPart entry.1 := by decide
  obtain ⟨-, hnone⟩ := (empty_keys_are_empty_parts hkept hkeptKeys).1 hparts
  exact ⟨⟨hkeptKeys, hnone⟩, hcutKeys, (empty_keys_are_empty_parts hcut hcutKeys).2 hpart⟩

/-- A dot at the end of a key is not kept if another one before it has text on both sides: the key is cut there too, and the
    empty key comes about where no key was empty. -/
theorem trailing_dot_makes_empty_key :
    let v : Value := .object none [("a.b.", .bool true)]
    v.Ordered ∧ v.EveryKey (· ≠ "") ∧
    apply (some .deep) v = .object none [("a", .object none [("b", .object none [("", .bool true)])])] ∧
    ¬(apply (some .deep) v).EveryKey (· ≠ "") := by
  intro v
  have hv : v.Ordered := ⟨List.pairwise_singleton _ _, trivial, trivial⟩
  have happly : apply (some .deep) v = .object none [("a", .object none [("b", .object none [("", .bool true)])])] := rfl
  exact ⟨hv, by decide, happly, by decide⟩

end Conform.Expansion

import Conform.Proofs.Dispatch
import Conform.Proofs.Placement
/- Shapes are open: a shape looks at the fields that it declares and at nothing else of a composite. Where dotted keys are
   expanded, these fields are made from the entries of their names and from those whose keys go on behind the names, so
   other entries do not interfere, whether they make the object be expanded or not (`shape_is_open`). -/
namespace Conform

namespace Expansion

/-- The entry of the key has to do with a field of the name: it is the entry of this name or, if dotted keys are
    expanded, its key goes on behind the name with a dot. -/
def Concerns (mode : Option Expansion) (name key : String) : Prop :=
  key = name ∨ mode.isSome = true ∧ Behind name key

theorem fieldOrUndefined_apply_congr {mode : Option Expansion} {v w : Value} (hv : v.Ordered) (hw : w.Ordered)
    {name : String} (h : ∀ key, Concerns mode name key → v.field? key = w.field? key) :
    (apply mode v).fieldOrUndefined name = (apply mode w).fieldOrUndefined name := by
  have hfield : (apply mode v).field? name = (apply mode w).field? name := by
    cases mode with
    | none => exact h name (.inl rfl)
    | some mode => exact field?_apply_congr hv hw fun key hkey => h key (hkey.imp_right fun hbehind => ⟨rfl, hbehind⟩)
  rw [Value.fieldOrUndefined, Value.fieldOrUndefined, hfield]

end Expansion

/-- The values have the same entries as far as fields of the given names are concerned. What has no entries, because
    it is no object, can only agree with what has none there. -/
def Value.AgreeOn (mode : Option Expansion) (names : List String) (v w : Value) : Prop :=
  ∀ name ∈ names, ∀ key, Expansion.Concerns mode name key → v.field? key = w.field? key

namespace Spec

theorem fieldOutcomes_congr {r : Registry} {mode : Option Expansion} {p : Path} {target target' : Value}
    {fields : List (String × Spec)}
    (h : ∀ name ∈ fields.map (·.1), target.fieldOrUndefined name = target'.fieldOrUndefined name) :
    fieldOutcomes r mode p target fields = fieldOutcomes r mode p target' fields := by
  induction fields with
  | nil => rfl
  | cons field rest ih =>
    obtain ⟨hfield, hrest⟩ := List.forall_mem_cons.1 h
    rw [fieldOutcomes, fieldOutcomes, hfield, ih hrest]

/-- A shape makes the same tests of composites that agree on the fields that it declares. -/
theorem outcomes_shape_congr {m : Matcher} {fields : List (String × Spec)} {v w : Value} (hv : v.Ordered)
    (hw : w.Ordered) (hvc : v.isComposite = true) (hwc : w.isComposite = true)
    (h : v.AgreeOn m.expansion (fields.map (·.1)) w) : m.outcomes (.shape fields) v = m.outcomes (.shape fields) w := by
  rw [Matcher.outcomes, Matcher.outcomes, outcomes, outcomes, if_pos hvc, if_pos hwc, Expansion.atShape_false]
  exact fieldOutcomes_congr fun name hname => Expansion.fieldOrUndefined_apply_congr hv hw (h name hname)

end Spec

/-- A shape does not tell composites apart that have the same entries where the fields that it declares are concerned:
    queries and traces give the same, and assertions and checks end with the same and leave the same journal. Neither
    the classes of the composites nor any other entries matter. Objects keep their fields sorted by name, at every
    depth. -/
theorem shape_is_open (r : Registry) (mode : Option Expansion) (fields : List (String × Spec)) (v w : Value)
    (hv : v.Ordered) (hw : w.Ordered) (hvc : v.isComposite = true) (hwc : w.isComposite = true)
    (h : v.AgreeOn mode (fields.map (·.1)) w) :
    (Query.mk ⟨r, mode⟩).is (.shape fields) v = (Query.mk ⟨r, mode⟩).is (.shape fields) w ∧
    (Query.mk ⟨r, mode⟩).trace (.shape fields) v = (Query.mk ⟨r, mode⟩).trace (.shape fields) w ∧
    ∀ heading sink description j,
      ((Assertion.mk ⟨r, mode⟩ heading).is (.shape fields) v description).run j =
        ((Assertion.mk ⟨r, mode⟩ heading).is (.shape fields) w description).run j ∧
      ((Check.mk ⟨r, mode⟩ heading sink).is (.shape fields) v description).run j =
        ((Check.mk ⟨r, mode⟩ heading sink).is (.shape fields) w description).run j := by
  have houtcomes : (Matcher.mk r mode).outcomes (.shape fields) v = (Matcher.mk r mode).outcomes (.shape fields) w :=
    Spec.outcomes_shape_congr hv hw hvc hwc h
  have hfailure : (Matcher.mk r mode).firstFailure (.shape fields) v =
      (Matcher.mk r mode).firstFailure (.shape fields) w := by
    rw [Matcher.firstFailure, Matcher.firstFailure, houtcomes]
  refine ⟨?_, ?_, fun heading sink description j => ⟨?_, ?_⟩⟩
  · rw [Query.is_eq, Query.is_eq, hfailure]
  · rw [Query.trace_eq, Query.trace_eq, hfailure, houtcomes]
  · rw [Assertion.run_is, Assertion.run_is, hfailure]
  · rw [Check.run_is, Check.run_is, hfailure]

/-- Nothing has to be expanded in the first object, while the second one is put together anew because of a key that the
    shape knows nothing of. -/
theorem shape_is_open_beside :
    let m : Matcher := ⟨.ofTable Registry.presenceTests, some .deep⟩
    let fields : List (String × Spec) := [("a", .shape [("b", .leaf "null")])]
    let v : Value := .ofFields none [("a", .ofFields none [("b", .undefined)])]
    let w : Value := .ofFields (some "Flat") [("c.d", .null), ("a", .ofFields none [("b", .undefined)]), ("a-x", .null)]
    (Expansion.deep.applies v = false ∧ Expansion.deep.applies w = true) ∧
    ∀ description j, ((Check.mk m (.fixed "Flat:") .memory).is (.shape fields) v description).run j =
      ((Check.mk m (.fixed "Flat:") .memory).is (.shape fields) w description).run j := by
  intro m fields v w
  have hinner : (Value.ofFields none [("b", .undefined)]).Ordered :=
    Value.ordered_ofFields none (by simp [Value.Ordered])
  have hv : v.Ordered := Value.ordered_ofFields none (by simpa using hinner)
  have hw : w.Ordered := Value.ordered_ofFields (some "Flat") (by simpa [Value.Ordered] using hinner)
  have hagree : v.AgreeOn (some .deep) ["a"] w := by
    intro name hname key hkey
    obtain rfl := List.mem_singleton.1 hname
    rcases hkey with rfl | ⟨-, rest, rfl⟩
    · rfl
    · -- a key that goes on behind the name is in neither object
      have hother : ∀ k ∈ ["a", "a-x", "c.d"], k ≠ "a" ++ "." ++ rest := by
        rintro k hk rfl
        have hchars := List.mem_map_of_mem hk (f := String.toList)
        simp at hchars
      have hvnone : v.field? ("a" ++ "." ++ rest) = none :=
        Entries.find?_eq_none_of_forall_ne fun entry hentry => by
          obtain rfl := List.mem_singleton.1 hentry
          exact hother "a" (by simp)
      have hwnone : w.field? ("a" ++ "." ++ rest) = none :=
        Entries.find?_eq_none_of_forall_ne fun entry hentry => hother entry.1 (List.mem_map_of_mem hentry)
      rw [hvnone, hwnone]
  have hopen := shape_is_open m.registry (some .deep) fields v w hv hw rfl rfl hagree
  exact ⟨⟨rfl, rfl⟩, fun description j => (hopen.2.2 (.fixed "Flat:") .memory description j).2⟩

end Conform

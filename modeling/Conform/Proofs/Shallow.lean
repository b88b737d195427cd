import Conform.Proofs.Agreement
import Conform.Proofs.Expansion
import Conform.Proofs.Place
import Conform.Proofs.Simulation
/- Shallow expansion is done once. A shape that is laid over a value with shallow expansion finds what it would find
   without expansion in the value that was expanded before, and so do all dispatchers (`shallow_acts_once`). The specs
   of its fields are laid over the fields of the expanded value as if no expansion had been asked for: the trace of the
   shape is put together from their traces, which know nothing of the shape but the name of the field. -/
namespace Conform

namespace Spec

/-! ## Below a shape a shallow expansion is none -/

/-- A value is as good as itself where one walk stands below a shape and the other one does not expand. -/
theorem simulation_below (r : Registry) :
    Simulation r (some .shallow) none (fun nested _ => nested = true) Eq := by
  refine .ofSameExpansion rfl ?_
  rintro nested nested' rfl
  rfl

theorem eq_of_matched_eq {outs outs' : List Outcome} (h : List.Forall₂ (Outcome.Matched Eq) outs outs') :
    outs = outs' := by
  induction h with
  | nil => rfl
  | @cons o o' _ _ ho _ ih =>
    obtain ⟨passed, path, spec, value⟩ := o
    obtain ⟨rfl, rfl, rfl, rfl⟩ := ho
    rw [ih]

theorem outcomes_shallow_below (r : Registry) (s : Spec) (nested : Bool) (p : Path) (v : Value) :
    outcomes r (some .shallow) true p s v = outcomes r none nested p s v :=
  eq_of_matched_eq ((simulation_below r).indistinct s.respects_eq true nested p v v rfl rfl)

theorem accepts_shallow_below (r : Registry) (s : Spec) (nested : Bool) (v : Value) :
    accepts r (some .shallow) true s v = accepts r none nested s v :=
  ((simulation_below r).indistinct s.respects_eq).accepts_eq rfl rfl

/-- So walks are the same too, also of specs whose names are not known. -/
theorem walk_shallow_below {ε σ : Type} [OfSpecError ε] (r : Registry) (report : Report ε σ) (s : Spec) (nested : Bool)
    (p : Path) (v : Value) : s.walk r report (some .shallow) true p v = s.walk r report none nested p v := by
  rw [walk_eq_walkAt, walk_eq_walkAt]
  rfl

theorem fieldOutcomes_shallow (r : Registry) (target : Value) (fields : List (String × Spec)) :
    fieldOutcomes r (some .shallow) .root target fields =
      fields.flatMap fun field => ((Matcher.mk r none).outcomes field.2 (target.fieldOrUndefined field.1)).map
        fun o => o.under [.key field.1] := by
  induction fields with
  | nil => rfl
  | cons field rest ih =>
    have hfield : outcomes r (some .shallow) true (Path.root.key field.1) field.2 (target.fieldOrUndefined field.1) =
        ((Matcher.mk r none).outcomes field.2 (target.fieldOrUndefined field.1)).map
          fun o => o.under [.key field.1] := by
      calc
        _ = outcomes r none false (Path.root.under [.key field.1]) field.2 (target.fieldOrUndefined field.1) :=
          outcomes_shallow_below r field.2 false _ _
        _ = _ := movable field.2 false _ _ _
    rw [fieldOutcomes, ih, List.flatMap_cons, hfield]

/-- The tests of a shape with shallow expansion are those without expansion on the expanded value. -/
theorem outcomes_shape_shallow (r : Registry) (fields : List (String × Spec)) (v : Value) :
    (Matcher.mk r (some .shallow)).outcomes (.shape fields) v =
      (Matcher.mk r none).outcomes (.shape fields) (Expansion.apply (some .shallow) v) := by
  have hsurface := Expansion.sameSurface_apply (some .shallow) v
  simp only [Matcher.outcomes, outcomes, ← hsurface.isComposite_eq]
  cases hcomposite : v.isComposite with
  | false =>
    have hobject : v.isObject = false := by
      cases v with
      | object tag fields => cases hcomposite
      | _ => rfl
    simp only [Expansion.apply_of_not_isObject _ hobject]
    rfl
  | true =>
    have hbelow := simulation_below r
    exact eq_of_matched_eq
      (hbelow.matched_fields (fun field _ => hbelow.indistinct field.2.respects_eq) .root fun key => rfl)

end Spec

/-! ## A shape is expanded once -/

/-- Shallow expansion acts at the outermost shape and nowhere below it. All dispatchers say of a shape with shallow
    expansion what they say of it without expansion on the expanded value. A spec below a shape makes the same tests,
    with the same results, as without expansion, and every walk reports them in the same way; so the trace of a shape is
    put together from the traces of the specs of its fields on the fields of the expanded value, without expansion. -/
theorem shallow_acts_once (r : Registry) (fields : List (String × Spec)) (v : Value) :
    (∀ heading sink description j, SameAnswers ⟨r, some .shallow⟩ ⟨r, none⟩ heading sink (.shape fields) v
      (Expansion.apply (some .shallow) v) description j) ∧
    (∀ s nested p x, Spec.outcomes r (some .shallow) true p s x = Spec.outcomes r none nested p s x ∧
      Spec.accepts r (some .shallow) true s x = Spec.accepts r none nested s x ∧
      ∀ (ε σ : Type) [OfSpecError ε] (report : Report ε σ),
        Spec.walk r report (some .shallow) true p s x = Spec.walk r report none nested p s x) ∧
    (r.validate (.shape fields) = .ok () → v.isComposite = true →
      ∃ t, (Query.mk ⟨r, some .shallow⟩).trace (.shape fields) v = .ok t ∧
        t.steps = fields.flatMap fun field =>
          ((Matcher.mk r none).outcomes field.2
            ((Expansion.apply (some .shallow) v).fieldOrUndefined field.1)).map fun o => (o.under [.key field.1]).step) := by
  refine ⟨fun heading sink description j => ?_, fun s nested p x => ?_, fun hvalid hcomposite => ?_⟩
  · have hregistry : (Matcher.mk r (some .shallow)).registry = (Matcher.mk r none).registry := rfl
    have houtcomes := Spec.outcomes_shape_shallow r fields v
    exact sameAnswers_of_steps hregistry (congrArg (List.map Outcome.step) houtcomes)
      (Expansion.sameSurface_apply (some .shallow) v).preview_eq heading sink description j
  · exact ⟨Spec.outcomes_shallow_below r s nested p x, Spec.accepts_shallow_below r s nested x,
      fun ε σ _ report => Spec.walk_shallow_below r report s nested p x⟩
  · refine ⟨_, by rw [Query.trace_eq, hvalid]; rfl, ?_⟩
    show ((Matcher.mk r (some .shallow)).outcomes (.shape fields) v).map Outcome.step = _
    simp only [Matcher.outcomes, Spec.outcomes, hcomposite, if_true]
    rw [Spec.fieldOutcomes_shallow, List.map_flatMap]
    simp only [List.map_map]
    rfl

/-- The key that expansion leaves below the shape is not cut again, although the inner spec is a shape too. -/
theorem shallow_acts_once_nested :
    let s : Spec := .shape [("a", .shape [("b.c", .leaf "null"), ("b", .leaf "defined")])]
    let v : Value := .object none [("a.b.c", .null)]
    (Query.mk ⟨.ofTable Registry.presenceTests, some .shallow⟩).trace s v =
      (Query.mk ⟨.ofTable Registry.presenceTests, none⟩).trace s (.object none [("a", .object none [("b.c", .null)])]) ∧
    ∃ t, (Query.mk ⟨.ofTable Registry.presenceTests, some .shallow⟩).trace s v = .ok t ∧
      t.steps = [⟨true, (Path.root.key "a").key "b.c", "null", "[null]"⟩,
        ⟨false, (Path.root.key "a").key "b", "defined", "[undefined]"⟩] := by
  intro s v
  obtain ⟨hsame, -, hsteps⟩ := shallow_acts_once (.ofTable Registry.presenceTests)
    [("a", .shape [("b.c", .leaf "null"), ("b", .leaf "defined")])] v
  exact ⟨(hsame (.fixed "") .memory "" .empty).trace, hsteps rfl rfl⟩

end Conform

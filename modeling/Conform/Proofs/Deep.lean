import Conform.Proofs.Agreement
import Conform.Proofs.Expansion
import Conform.Proofs.Simulation
/- Deep expansion is done everywhere. A walk with deep expansion expands each shape's value when it comes to it, so it
   sees values that are expanded in part. `Expansion.full` expands a value at once, in all objects that are reached
   through fields and elements. For specs without predicates over the standard registry it is all the same: they say of
   a value with deep expansion what they say of the fully expanded value without (`deep_is_full`). The fully expanded
   value is what a walk would make of the value if it came by everywhere: expansion of the parts can be left for later
   (`full_eq`, `fieldOrUndefined_full`), and until then it is not seen from outside (`sameSurface_full`). Nothing is left
   to expand then (`full_full`). -/
namespace Conform

namespace Expansion

/-! ## Full expansion -/

mutual

/-- The value with the elements of its arrays fully expanded. Its own fields and those of the objects that are reached
    through fields stay where they are. -/
def inArrays : Value → Value
  | .array items => .array (fullItems items)
  | .object tag fields => .object tag (inArraysFields fields)
  | v => v

def fullItems : List Value → List Value
  | [] => []
  | v :: rest => apply (some .deep) (inArrays v) :: fullItems rest

def inArraysFields : List (String × Value) → List (String × Value)
  | [] => []
  | (key, v) :: rest => (key, inArrays v) :: inArraysFields rest

end

/-- The value with every object expanded deeply that is reached through fields and elements. -/
def full (v : Value) : Value :=
  apply (some .deep) (inArrays v)

theorem fullItems_eq (items : List Value) : fullItems items = items.map full := by
  induction items with
  | nil => rfl
  | cons v rest ih =>
    rw [fullItems, ih]
    rfl

theorem inArraysFields_eq (fields : List (String × Value)) :
    inArraysFields fields = Entries.mapValues inArrays fields := by
  induction fields with
  | nil => rfl
  | cons entry rest ih =>
    rw [inArraysFields, ih]
    rfl

theorem actsOnFields_inArrays : ActsOnFields inArrays where
  object tag fields := by rw [inArrays, inArraysFields_eq]
  isObject v h := by
    cases v with
    | object tag fields => cases h
    | _ => rfl

/-- A value is fully expanded by expanding it and then expanding inside the arrays that it holds. -/
theorem full_eq (v : Value) : full v = inArrays (apply (some .deep) v) :=
  actsOnFields_inArrays.apply_deep v

theorem full_array (items : List Value) : full (.array items) = .array (items.map full) := by
  rw [full, inArrays, fullItems_eq, apply_of_not_isObject (some .deep) rfl]

theorem full_of_not_hasDottedKey {v : Value} (h : hasDottedKey v = false) : full v = inArrays v := by
  rw [full_eq, apply_deep_of_not_hasDottedKey h]

theorem hasDottedKey_full (v : Value) : hasDottedKey (full v) = false :=
  hasDottedKey_apply_deep (inArrays v)

theorem fieldOrUndefined_full (v : Value) (key : String) :
    (full v).fieldOrUndefined key = full ((apply (some .deep) v).fieldOrUndefined key) := by
  -- what is taken out of an expanded value has nothing left to expand but its arrays
  have hfield := hasDottedKey_fieldOrUndefined (hasDottedKey_apply_deep v) key
  calc
    (full v).fieldOrUndefined key
    _ = (inArrays (apply (some .deep) v)).fieldOrUndefined key := by rw [full_eq]
    _ = inArrays ((apply (some .deep) v).fieldOrUndefined key) := actsOnFields_inArrays.fieldOrUndefined rfl _ key
    _ = full ((apply (some .deep) v).fieldOrUndefined key) := (full_of_not_hasDottedKey hfield).symm

theorem sameSurface_inArrays (v : Value) : v.SameSurface (inArrays v) := by
  cases v with
  | array items =>
    rw [inArrays, fullItems_eq]
    exact .array (List.length_map _).symm
  | object tag fields =>
    rw [inArrays, inArraysFields_eq]
    exact .object List.map_eq_nil_iff.symm
  | _ => exact .refl _

theorem sameSurface_full (v : Value) : v.SameSurface (full v) :=
  (sameSurface_inArrays v).trans (sameSurface_apply (some .deep) (inArrays v))

theorem items?_full (v : Value) : (full v).items? = v.items?.map (List.map full) := by
  cases v with
  | array items =>
    rw [full_array]
    rfl
  | object tag fields =>
    have hsurface := sameSurface_full (.object tag fields)
    generalize full (.object tag fields) = w at hsurface
    cases hsurface <;> rfl
  | _ => rfl

theorem full_full_of_inArrays {v : Value} (h : inArrays (inArrays v) = inArrays v) : full (full v) = full v := by
  rw [full_of_not_hasDottedKey (hasDottedKey_full v), full, ← actsOnFields_inArrays.apply_deep, h]

theorem inArrays_inArrays (v : Value) : inArrays (inArrays v) = inArrays v := by
  induction v using Value.induction with
  | array items ih =>
    -- an element is fully expanded twice: the second time its arrays are done by the hypothesis, its keys were cut before
    rw [inArrays, inArrays, fullItems_eq, fullItems_eq, List.map_map]
    exact congrArg Value.array (List.map_congr_left fun x hx => full_full_of_inArrays (ih x hx))
  | object tag fields ih =>
    rw [inArrays, inArrays, inArraysFields_eq, inArraysFields_eq, Entries.mapValues, Entries.mapValues, List.map_map]
    exact congrArg (Value.object tag) (List.map_congr_left fun entry hentry => by
      rw [Function.comp, ih entry hentry])
  | other v harray hobject =>
    cases v with
    | array items => cases harray
    | object tag fields => cases hobject
    | _ => rfl

/-- A fully expanded value has nothing left to expand, neither in fields nor in elements. -/
theorem full_full (v : Value) : full (full v) = full v :=
  full_full_of_inArrays (inArrays_inArrays v)

end Expansion

namespace Spec
open Expansion (full)

/-! ## Values that are to be expanded and expanded ones -/

/-- A value that is expanded on the way is as good as the fully expanded one that stays as it is. -/
theorem simulation_full : Simulation .standard (some .deep) none (fun _ _ => True) fun v w => w = full v where
  below := trivial
  check := by
    rintro v _ rfl name
    exact Registry.check_standard_eq (Expansion.sameSurface_full v) name
  items := by
    rintro v _ rfl
    rw [Expansion.items?_full]
    cases v.items? with
    | none => exact .inl ⟨rfl, rfl⟩
    | some items =>
      exact .inr ⟨items, items.map full, rfl, rfl, List.forall₂_map_right_iff.2 (List.forall₂_same.2 fun x _ => rfl)⟩
  isComposite := by
    rintro v _ rfl
    exact (Expansion.sameSurface_full v).isComposite_eq
  field := by
    rintro nested nested' v _ - rfl - key
    have hmode : Expansion.atShape (some .deep) nested = some .deep := by cases nested <;> rfl
    have hnone : Expansion.atShape none nested' = none := by cases nested' <;> rfl
    rw [hmode, hnone, Expansion.apply_none]
    exact Expansion.fieldOrUndefined_full v key

end Spec

/-- Over the standard registry, the dispatchers say of a value with deep expansion what they say of the fully expanded
    value without, whatever the spec, if its predicates do not tell the one from the other. -/
theorem sameAnswers_full {s : Spec} (h : s.Respects fun v w => w = Expansion.full v) (v : Value) (heading : Heading)
    (sink : Sink) (description : String) (j : Journal) :
    SameAnswers ⟨.standard, some .deep⟩ ⟨.standard, none⟩ heading sink s v (Expansion.full v) description j := by
  have hpreview : ∀ x y, y = Expansion.full x → x.preview = y.preview := by
    rintro x _ rfl
    exact (Expansion.sameSurface_full x).preview_eq
  have hregistry : (Matcher.mk .standard (some .deep)).registry = (Matcher.mk .standard none).registry := rfl
  have hsteps : ((Matcher.mk .standard (some .deep)).outcomes s v).map Outcome.step =
      ((Matcher.mk .standard none).outcomes s (Expansion.full v)).map Outcome.step :=
    Spec.Simulation.map_step_eq hpreview (Spec.simulation_full.indistinct h false false .root v _ trivial rfl)
  exact sameAnswers_of_steps hregistry hsteps (hpreview v _ rfl) heading sink description j

/-- A spec without predicates cannot tell whether deep expansion is done on the way or was done before, everywhere. The
    traces have the same flag and the same steps, or the spec is refused with the same fault. -/
theorem deep_is_full (s : Spec) (v : Value) (h : s.PredicateFree) :
    (Query.mk ⟨.standard, some .deep⟩).trace s v = (Query.mk ⟨.standard, none⟩).trace s (Expansion.full v) :=
  (sameAnswers_full (h.respects _) v (.fixed "") .memory "" .empty).trace

/-- A record with a dotted key stands in a list below a dotted key: the walk expands the outer object first, and the
    record when it comes to the shape in the tuple. -/
theorem deep_is_full_record :
    let s : Spec := .shape [("a", .shape [("b", .tuple [.shape [("c", .shape [("d", .leaf "number | string")])]])])]
    let v : Value := .object none [("a.b", .array [.object none [("c.d", .null)]])]
    (Query.mk ⟨.standard, some .deep⟩).trace s v = .ok ⟨false, [⟨false,
      ((((Path.root.key "a").key "b").index 0).key "c").key "d", "number | string", "[null]"⟩]⟩ := by
  intro s v
  have hfree : s.PredicateFree := by simp [s]
  rw [deep_is_full s v hfree]
  rfl

end Conform

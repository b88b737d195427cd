import Conform.Proofs.Meaning
/- What a spec finds does not depend on the place. The tests that are made when a spec is laid over a value further inside
   are those that are made at the root, with another path (`Spec.movable`). -/
namespace Conform

def Path.under (p : Path) (lead : List Segment) : Path :=
  ⟨lead ++ p.segments⟩

/-- The outcome as it is reported when its value stands further inside. -/
def Outcome.under (o : Outcome) (lead : List Segment) : Outcome :=
  { o with path := o.path.under lead }

theorem Path.push_under (p : Path) (lead : List Segment) (step : Segment) :
    (p.under lead).push step = (p.push step).under lead := by
  simp only [push, under, List.append_assoc]

theorem Path.index_under (p : Path) (lead : List Segment) (position : Nat) :
    (p.under lead).index position = (p.index position).under lead :=
  push_under p lead (.index position)

theorem Path.key_under (p : Path) (lead : List Segment) (name : String) :
    (p.under lead).key name = (p.key name).under lead :=
  push_under p lead (.key name)

namespace Spec
variable {r : Registry} {mode : Option Expansion}

/-- The tests that the spec makes further inside are the same with another path. -/
def Movable (r : Registry) (mode : Option Expansion) (s : Spec) : Prop :=
  ∀ nested lead p v, outcomes r mode nested (Path.under p lead) s v =
    (outcomes r mode nested p s v).map fun o => o.under lead

theorem operandOutcomes_under {operands : List Spec} (h : ∀ s ∈ operands, Movable r mode s) (nested : Bool)
    (lead : List Segment) (p : Path) (v : Value) :
    operandOutcomes r mode nested (p.under lead) v operands =
      (operandOutcomes r mode nested p v operands).map fun o => o.under lead := by
  induction operands with
  | nil => rfl
  | cons s rest ih =>
    obtain ⟨hs, hrest⟩ := List.forall_mem_cons.1 h
    rw [operandOutcomes, operandOutcomes, List.map_append, hs, ih hrest]

theorem elementOutcomes_under {operands : List Spec} (h : ∀ s ∈ operands, Movable r mode s) (nested : Bool)
    (lead : List Segment) (p : Path) (start : Nat) (items : List Value) :
    elementOutcomes r mode nested (p.under lead) start operands items =
      (elementOutcomes r mode nested p start operands items).map fun o => o.under lead := by
  induction operands generalizing start items with
  | nil => rfl
  | cons s rest ih =>
    obtain ⟨hs, hrest⟩ := List.forall_mem_cons.1 h
    cases items with
    | nil => rfl
    | cons v values =>
      rw [elementOutcomes, elementOutcomes, List.map_append, Path.index_under, hs, ih hrest]

theorem fieldOutcomes_under {fields : List (String × Spec)} (h : ∀ field ∈ fields, Movable r mode field.2)
    (lead : List Segment) (p : Path) (target : Value) :
    fieldOutcomes r mode (p.under lead) target fields =
      (fieldOutcomes r mode p target fields).map fun o => o.under lead := by
  induction fields with
  | nil => rfl
  | cons field rest ih =>
    obtain ⟨hfield, hrest⟩ := List.forall_mem_cons.1 h
    rw [fieldOutcomes, fieldOutcomes, List.map_append, Path.key_under, hfield, ih hrest]

theorem movable_tuple {s : Spec} {operands : List Spec} (hs : s = tuple operands ∨ s = operator .tuple operands)
    (h : ∀ t ∈ operands, Movable r mode t) : Movable r mode s := by
  rcases hs with rfl | rfl
  all_goals
    intro nested lead p v
    simp only [outcomes]
    cases v.items? with
    | none => rfl
    | some items =>
      by_cases hlen : items.length = operands.length
      · simp only [if_pos hlen]
        exact elementOutcomes_under h nested lead p 0 items
      · simp only [if_neg hlen]
        rfl

theorem movable (s : Spec) : Movable r mode s := by
  induction s with
  | leaf name => exact fun nested lead p v => rfl
  | predicate name test => exact fun nested lead p v => rfl
  | listOf item ih =>
    intro nested lead p v
    simp only [outcomes]
    cases v.items? with
    | none => rfl
    | some items =>
      have hitem : ∀ i x, outcomes r mode nested ((p.under lead).index i) item x =
          (outcomes r mode nested (p.index i) item x).map fun o => o.under lead := by
        intro i x
        rw [Path.index_under, ih]
      simp only [hitem, List.map_flatten, List.mapIdx_eq_zipIdx_map, List.map_map]
      rfl
  | operator op operands ih =>
    cases op with
    | all => exact fun nested lead p v => operandOutcomes_under ih nested lead p v
    | any => exact fun nested lead p v => rfl
    | not => exact fun nested lead p v => rfl
    | tuple => exact movable_tuple (.inr rfl) ih
  | tuple operands ih => exact movable_tuple (.inl rfl) ih
  | shape fields ih =>
    intro nested lead p v
    simp only [outcomes]
    cases v.isComposite with
    | false => rfl
    | true => exact fieldOutcomes_under ih lead p _

end Spec

end Conform

import Conform.Walk
/- What a spec means, said without a walk. `Spec.accepts` is whether the spec describes the value, by recursion on the
   spec; `Spec.outcomes` is the list of the tests that it makes, from the first to the last, by the same recursion.
   Both take the mode of expansion as it was asked for and a flag that says whether the spec stands below a shape:
   a shallow expansion is done at the outermost shapes only. The tests of a spec all pass exactly for the values that it
   accepts (`all_passed_outcomes`). -/
namespace Conform

namespace Expansion

theorem atShape_false (mode : Option Expansion) : atShape mode false = mode := by
  rcases mode with _ | _ | _ <;> rfl

end Expansion

namespace Spec

mutual

/-- The spec describes the value. A spec that is `nested` stands below a shape. -/
def accepts (r : Registry) (mode : Option Expansion) (nested : Bool) (s : Spec) (v : Value) : Bool :=
  match s with
  | leaf name => (leafNames name).any fun n => r.check n v = some true
  | predicate _ test => test v
  | listOf item => v.items?.any fun items => items.all fun x => accepts r mode nested item x
  | operator .all operands => allAccept r mode nested v operands
  | operator .any operands => someAccepts r mode nested v operands
  | operator .not operands => !someAccepts r mode nested v operands
  | operator .tuple operands | tuple operands =>
    v.items?.any fun items => eachAccepts r mode nested operands items
  | shape fields =>
    v.isComposite && fieldsAccept r mode (Expansion.apply (Expansion.atShape mode nested) v) fields
termination_by structural s

def allAccept (r : Registry) (mode : Option Expansion) (nested : Bool) (v : Value) (operands : List Spec) : Bool :=
  match operands with
  | [] => true
  | s :: rest => accepts r mode nested s v && allAccept r mode nested v rest
termination_by structural operands

def someAccepts (r : Registry) (mode : Option Expansion) (nested : Bool) (v : Value) (operands : List Spec) : Bool :=
  match operands with
  | [] => false
  | s :: rest => accepts r mode nested s v || someAccepts r mode nested v rest
termination_by structural operands

/-- There are as many elements as specs, and each spec describes the element at its place. -/
def eachAccepts (r : Registry) (mode : Option Expansion) (nested : Bool) (operands : List Spec)
    (items : List Value) : Bool :=
  match operands, items with
  | [], [] => true
  | s :: rest, v :: values => accepts r mode nested s v && eachAccepts r mode nested rest values
  | _, _ => false
termination_by structural operands

/-- The specs of the fields describe the fields of the target. A field that is missing is undefined. -/
def fieldsAccept (r : Registry) (mode : Option Expansion) (target : Value) (fields : List (String × Spec)) : Bool :=
  match fields with
  | [] => true
  | (key, s) :: rest =>
    accepts r mode true s (target.fieldOrUndefined key) && fieldsAccept r mode target rest
termination_by structural fields

end

mutual

/-- The tests that the spec makes of the value at a place, from the first to the last. A leaf, a predicate, `$any` and
    `$not` are one test each; a value that cannot hold what the spec describes is one test that fails. -/
def outcomes (r : Registry) (mode : Option Expansion) (nested : Bool) (p : Path) (s : Spec) (v : Value) :
    List Outcome :=
  match s with
  | leaf _ | predicate _ _ | operator .any _ | operator .not _ => [⟨accepts r mode nested s v, p, s, v⟩]
  | operator .all operands => operandOutcomes r mode nested p v operands
  | listOf item =>
    match v.items? with
    | none => [⟨false, p, s, v⟩]
    | some items => (items.mapIdx fun i x => outcomes r mode nested (p.index i) item x).flatten
  | operator .tuple operands | tuple operands =>
    match v.items? with
    | none => [⟨false, p, s, v⟩]
    | some items =>
      if items.length = operands.length then elementOutcomes r mode nested p 0 operands items
      else [⟨false, p, s, v⟩]
  | shape fields =>
    if v.isComposite then
      fieldOutcomes r mode p (Expansion.apply (Expansion.atShape mode nested) v) fields
    else [⟨false, p, s, v⟩]
termination_by structural s

def operandOutcomes (r : Registry) (mode : Option Expansion) (nested : Bool) (p : Path) (v : Value)
    (operands : List Spec) : List Outcome :=
  match operands with
  | [] => []
  | s :: rest => outcomes r mode nested p s v ++ operandOutcomes r mode nested p v rest
termination_by structural operands

/-- The tests of the operands on the elements at their places; the first of them has the given index. -/
def elementOutcomes (r : Registry) (mode : Option Expansion) (nested : Bool) (p : Path) (start : Nat)
    (operands : List Spec) (items : List Value) : List Outcome :=
  match operands, items with
  | s :: rest, v :: values =>
    outcomes r mode nested (p.index start) s v ++ elementOutcomes r mode nested p (start + 1) rest values
  | _, _ => []
termination_by structural operands

/-- The tests of the specs of fields on the fields of the target, in the order in which the shape has them. -/
def fieldOutcomes (r : Registry) (mode : Option Expansion) (p : Path) (target : Value)
    (fields : List (String × Spec)) : List Outcome :=
  match fields with
  | [] => []
  | (key, s) :: rest =>
    outcomes r mode true (p.key key) s (target.fieldOrUndefined key) ++ fieldOutcomes r mode p target rest
termination_by structural fields

end

/-! ## The tests of a spec all pass exactly for the values that it accepts -/

section
variable {r : Registry} {mode : Option Expansion}

/-- The tests of the spec decide whether it describes a value, at every place and for every value. -/
def Conclusive (r : Registry) (mode : Option Expansion) (s : Spec) : Prop :=
  ∀ nested p v, (outcomes r mode nested p s v).all Outcome.passed = accepts r mode nested s v

theorem all_passed_operandOutcomes {operands : List Spec} (h : ∀ s ∈ operands, Conclusive r mode s)
    (nested : Bool) (p : Path) (v : Value) :
    (operandOutcomes r mode nested p v operands).all Outcome.passed = allAccept r mode nested v operands := by
  induction operands with
  | nil => rfl
  | cons s rest ih =>
    obtain ⟨hs, hrest⟩ := List.forall_mem_cons.1 h
    rw [operandOutcomes, allAccept, List.all_append, hs, ih hrest]

theorem all_passed_elementOutcomes {operands : List Spec} (h : ∀ s ∈ operands, Conclusive r mode s)
    (nested : Bool) (p : Path) (start : Nat) {items : List Value} (hlen : items.length = operands.length) :
    (elementOutcomes r mode nested p start operands items).all Outcome.passed =
      eachAccepts r mode nested operands items := by
  induction operands generalizing start items with
  | nil => rw [List.eq_nil_of_length_eq_zero hlen]; rfl
  | cons s rest ih =>
    obtain ⟨hs, hrest⟩ := List.forall_mem_cons.1 h
    match items, hlen with
    | v :: values, hlen =>
      rw [elementOutcomes, eachAccepts, List.all_append, hs, ih hrest _ (Nat.succ.inj hlen)]

theorem all_passed_fieldOutcomes {fields : List (String × Spec)} (h : ∀ field ∈ fields, Conclusive r mode field.2)
    (p : Path) (target : Value) :
    (fieldOutcomes r mode p target fields).all Outcome.passed = fieldsAccept r mode target fields := by
  induction fields with
  | nil => rfl
  | cons field rest ih =>
    obtain ⟨hfield, hrest⟩ := List.forall_mem_cons.1 h
    rw [fieldOutcomes, fieldsAccept, List.all_append, hfield, ih hrest]

/-- Where the tests of each item decide a property of it, those of all items decide it of all. -/
theorem all_flatten_mapIdx {α β : Type} {f : Nat → α → List β} {passed : β → Bool} {holds : α → Bool}
    (h : ∀ i x, (f i x).all passed = holds x) (items : List α) :
    (items.mapIdx f).flatten.all passed = items.all holds := by
  induction items generalizing f with
  | nil => rfl
  | cons x rest ih =>
    rw [List.mapIdx_cons, List.flatten_cons, List.all_append, List.all_cons, h, ih fun i => h (i + 1)]

theorem eachAccepts_of_length_ne {nested : Bool} {operands : List Spec} {items : List Value}
    (h : items.length ≠ operands.length) : eachAccepts r mode nested operands items = false := by
  induction operands generalizing items with
  | nil =>
    cases items with
    | nil => exact absurd rfl h
    | cons v values => rfl
  | cons s rest ih =>
    cases items with
    | nil => rfl
    | cons v values =>
      have hrest : values.length ≠ rest.length := by simpa using h
      rw [eachAccepts, ih hrest, Bool.and_false]

/-- The two ways to write a tuple differ only in the spec that a rejected value is blamed on. -/
theorem conclusive_tuple {s : Spec} {operands : List Spec}
    (hs : s = tuple operands ∨ s = operator .tuple operands) (h : ∀ t ∈ operands, Conclusive r mode t) :
    Conclusive r mode s := by
  rcases hs with rfl | rfl
  all_goals
    intro nested p v
    simp only [outcomes, accepts]
    cases v.items? with
    | none => rfl
    | some items =>
      by_cases hlen : items.length = operands.length
      · simp only [if_pos hlen, Option.any_some]
        exact all_passed_elementOutcomes h nested p 0 hlen
      · simp only [if_neg hlen, Option.any_some]
        exact (eachAccepts_of_length_ne hlen).symm

theorem all_passed_singleton (o : Outcome) : [o].all Outcome.passed = o.passed :=
  Bool.and_true o.passed

/-- The tests that a spec makes all pass exactly for the values that it describes. -/
theorem all_passed_outcomes (s : Spec) : Conclusive r mode s := by
  induction s with
  | leaf name => exact fun nested p v => all_passed_singleton _
  | predicate name test => exact fun nested p v => all_passed_singleton _
  | listOf item ih =>
    intro nested p v
    simp only [outcomes, accepts]
    cases v.items? with
    | none => rfl
    | some items => exact all_flatten_mapIdx (fun i x => ih nested (p.index i) x) items
  | operator op operands ih =>
    cases op with
    | all => exact fun nested p v => all_passed_operandOutcomes ih nested p v
    | any => exact fun nested p v => all_passed_singleton _
    | not => exact fun nested p v => all_passed_singleton _
    | tuple => exact conclusive_tuple (.inr rfl) ih
  | tuple operands ih => exact conclusive_tuple (.inl rfl) ih
  | shape fields ih =>
    intro nested p v
    simp only [outcomes, accepts]
    cases v.isComposite with
    | false => rfl
    | true => exact all_passed_fieldOutcomes ih p _

end

end Spec

end Conform

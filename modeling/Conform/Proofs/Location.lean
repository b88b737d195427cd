import Conform.Proofs.Place
import Conform.Proofs.Simulation
import Conform.Proofs.Validation
/- What a step of a trace says is true of the place that it names. The steps of its path lead somewhere in the value
   (`Value.follow?`) and, along the same fields and indices, to a part of the spec (`Spec.LeadsTo`); the preview is that
   of the value found there, the label that of the part, and the part by itself says of the value what the step says
   (`Query.trace_true_of_place`). This is of walks without expansion: a path that leads through an expanded value need
   not lead anywhere in the value as it was. -/
namespace Conform

/-- What the steps lead to: a name leads into a composite, to undefined if it has no such field, and an index to the
    element of an array. -/
def Value.follow? (v : Value) : List Segment → Option Value
  | [] => some v
  | .key name :: steps => if v.isComposite then follow? (v.fieldOrUndefined name) steps else none
  | .index i :: steps => (v.items?.bind fun items => items[i]?).bind fun x => follow? x steps

/-! ## Parts of a spec along a path -/

namespace Spec

/-- The steps lead from the spec to a part of it, which is laid over what they lead to in the value: a name leads to
    a field of that name, an index to the spec of an element, and the operands of a conjunction need no step. What
    stands inside of `$any` and `$not` is not reached. -/
inductive LeadsTo : Spec → List Segment → Spec → Prop where
  | here (s : Spec) : LeadsTo s [] s
  | conjunct {operands : List Spec} {t part : Spec} {steps : List Segment} (ht : t ∈ operands)
      (h : LeadsTo t steps part) : LeadsTo (operator .all operands) steps part
  | element {item part : Spec} {steps : List Segment} (i : Nat) (h : LeadsTo item steps part) :
    LeadsTo (listOf item) (.index i :: steps) part
  | operand {s t part : Spec} {operands : List Spec} {i : Nat} {steps : List Segment}
      (hs : s = tuple operands ∨ s = operator .tuple operands) (ht : operands[i]? = some t)
      (h : LeadsTo t steps part) : LeadsTo s (.index i :: steps) part
  | field {fields : List (String × Spec)} {name : String} {t part : Spec} {steps : List Segment}
      (ht : (name, t) ∈ fields) (h : LeadsTo t steps part) : LeadsTo (shape fields) (.key name :: steps) part

theorem mem_parts_of_tuple {s t : Spec} {operands : List Spec} {i : Nat}
    (hs : s = tuple operands ∨ s = operator .tuple operands) (ht : operands[i]? = some t) : t ∈ s.parts := by
  rcases hs with rfl | rfl
  all_goals exact List.mem_of_getElem? ht

theorem LeadsTo.length_add_depth_le {s part : Spec} {steps : List Segment} (h : s.LeadsTo steps part) :
    steps.length + part.depth ≤ s.depth := by
  induction h with
  | here s => rw [List.length_nil, Nat.zero_add]
  | @conjunct operands t _ _ ht _ ih =>
    have hlt : t.depth < (operator .all operands).depth := depth_lt_of_mem_parts ht
    omega
  | @element item _ _ _ _ ih =>
    have hlt : item.depth < (listOf item).depth := depth_lt_of_mem_parts (List.mem_singleton.2 rfl)
    rw [List.length_cons]
    omega
  | operand hs ht _ ih =>
    have hlt := depth_lt_of_mem_parts (mem_parts_of_tuple hs ht)
    rw [List.length_cons]
    omega
  | @field fields _ t _ _ ht _ ih =>
    have hlt : t.depth < (shape fields).depth := depth_lt_of_mem_parts (List.mem_map_of_mem ht)
    rw [List.length_cons]
    omega

theorem LeadsTo.knows {r : Registry} {s part : Spec} {steps : List Segment} (h : s.LeadsTo steps part)
    (hs : r.Knows s) : r.Knows part := by
  induction h with
  | here s => exact hs
  | conjunct ht _ ih => exact ih (hs.of_mem_parts ht)
  | element _ _ ih => exact ih (hs.of_mem_parts (List.mem_singleton.2 rfl))
  | operand htuple ht _ ih => exact ih (hs.of_mem_parts (mem_parts_of_tuple htuple ht))
  | field ht _ ih => exact ih (hs.of_mem_parts (List.mem_map_of_mem ht))

theorem depth_pos (s : Spec) : 0 < s.depth := by
  rw [depth_eq]
  omega

theorem LeadsTo.validate {r : Registry} {s part : Spec} {steps : List Segment} (h : s.LeadsTo steps part)
    (hs : r.validate s = .ok ()) : r.validate part = .ok () := by
  obtain ⟨hdepth, hknows⟩ := Registry.validate_eq_ok_iff.1 hs
  have hle := h.length_add_depth_le
  exact Registry.validate_eq_ok_iff.2 ⟨by omega, h.knows hknows⟩

/-! ## The outcomes of containers are those of their members -/

section
variable {r : Registry} {mode : Option Expansion} {nested : Bool} {p : Path} {o : Outcome}

theorem mem_operandOutcomes {v : Value} {operands : List Spec} (h : o ∈ operandOutcomes r mode nested p v operands) :
    ∃ s ∈ operands, o ∈ outcomes r mode nested p s v := by
  induction operands with
  | nil => cases h
  | cons s rest ih =>
    rcases List.mem_append.1 h with h | h
    · exact ⟨s, List.mem_cons_self, h⟩
    · obtain ⟨t, ht, h⟩ := ih h
      exact ⟨t, List.mem_cons_of_mem _ ht, h⟩

theorem mem_elementOutcomes {start : Nat} {operands : List Spec} {items : List Value}
    (h : o ∈ elementOutcomes r mode nested p start operands items) :
    ∃ i s x, operands[i]? = some s ∧ items[i]? = some x ∧ o ∈ outcomes r mode nested (p.index (start + i)) s x := by
  induction operands generalizing start items with
  | nil => cases h
  | cons s rest ih =>
    cases items with
    | nil => cases h
    | cons x values =>
      rcases List.mem_append.1 h with h | h
      · exact ⟨0, s, x, rfl, rfl, h⟩
      · obtain ⟨i, t, y, ht, hy, h⟩ := ih h
        refine ⟨i + 1, t, y, ht, hy, ?_⟩
        have hindex : start + (i + 1) = start + 1 + i := by omega
        rw [hindex]
        exact h

theorem mem_fieldOutcomes {target : Value} {fields : List (String × Spec)}
    (h : o ∈ fieldOutcomes r mode p target fields) :
    ∃ field ∈ fields, o ∈ outcomes r mode true (p.key field.1) field.2 (target.fieldOrUndefined field.1) := by
  induction fields with
  | nil => cases h
  | cons field rest ih =>
    rcases List.mem_append.1 h with h | h
    · exact ⟨field, List.mem_cons_self, h⟩
    · obtain ⟨other, hother, h⟩ := ih h
      exact ⟨other, List.mem_cons_of_mem _ hother, h⟩

theorem mem_outcomes_push {step : Segment} {s : Spec} {x : Value}
    (h : o ∈ outcomes r mode nested (Path.root.push step) s x) :
    ∃ o' ∈ outcomes r mode nested .root s x, o'.under [step] = o := by
  have hmoved : outcomes r mode nested (Path.root.push step) s x =
      (outcomes r mode nested .root s x).map fun o => o.under [step] := movable s nested [step] .root x
  rw [hmoved] at h
  exact List.mem_map.1 h

end

theorem atShape_none (nested : Bool) : Expansion.atShape none nested = none := by
  cases nested <;> rfl

/-- Without expansion it makes no difference whether a spec stands below a shape. -/
theorem accepts_none (r : Registry) (s : Spec) (nested nested' : Bool) (v : Value) :
    accepts r none nested s v = accepts r none nested' s v := by
  have hsame : Simulation r none none (fun _ _ => True) Eq :=
    .ofSameExpansion trivial fun nested nested' _ => by rw [atShape_none, atShape_none]
  exact (hsame.indistinct s.respects_eq).accepts_eq trivial rfl

end Spec

/-! ## Outcomes are true of their places -/

/-- The path of the outcome leads to its spec and to its value, and the one describes the other as the outcome says. -/
structure Outcome.TrueOf (r : Registry) (s : Spec) (v : Value) (o : Outcome) : Prop where
  spec : s.LeadsTo o.path.segments o.spec
  value : v.follow? o.path.segments = some o.value
  passed : o.passed = o.spec.accepts r none false o.value

namespace Spec
variable {r : Registry} {nested : Bool} {v : Value}

/-- The outcome of a spec that reports but this one is true: it is about the spec as a whole. -/
theorem trueOf_only {s : Spec} {passed : Bool} (h : outcomes r none nested .root s v = [⟨passed, .root, s, v⟩]) :
    ∀ o ∈ outcomes r none nested .root s v, o.TrueOf r s v := by
  have hpassed : passed = accepts r none false s v := by
    rw [accepts_none r s false nested v, ← all_passed_outcomes s nested .root v, h, all_passed_singleton]
  intro o ho
  rw [h] at ho
  obtain rfl := List.mem_singleton.1 ho
  exact ⟨.here s, rfl, hpassed⟩

/-- What is true of a part and of a value inside is true, one step further inside, of the spec and of the value. -/
theorem trueOf_under {s t : Spec} {x : Value} {step : Segment} {o : Outcome}
    (hs : ∀ steps part, t.LeadsTo steps part → s.LeadsTo (step :: steps) part)
    (hv : ∀ steps, v.follow? (step :: steps) = x.follow? steps) (h : o.TrueOf r t x) :
    (o.under [step]).TrueOf r s v where
  spec := hs _ _ h.spec
  value := (hv _).trans h.value
  passed := h.passed

/-- The outcomes of the spec are true, whatever the value. -/
def Truthful (r : Registry) (s : Spec) : Prop :=
  ∀ nested v, ∀ o ∈ outcomes r none nested .root s v, o.TrueOf r s v

theorem follow?_index {items : List Value} {i : Nat} {x : Value} (hv : v.items? = some items) (hx : items[i]? = some x)
    (steps : List Segment) : v.follow? (.index i :: steps) = x.follow? steps := by
  rw [Value.follow?, hv, Option.bind_some, hx, Option.bind_some]

theorem follow?_key (hv : v.isComposite = true) (name : String) (steps : List Segment) :
    v.follow? (.key name :: steps) = (v.fieldOrUndefined name).follow? steps := by
  rw [Value.follow?, if_pos hv]

theorem truthful_tuple {s : Spec} {operands : List Spec} (hs : s = tuple operands ∨ s = operator .tuple operands)
    (h : ∀ t ∈ operands, Truthful r t) : Truthful r s := by
  intro nested v
  cases hitems : v.items? with
  | none =>
    have hself : outcomes r none nested .root s v = [⟨false, .root, s, v⟩] := by
      rcases hs with rfl | rfl
      all_goals simp only [outcomes, hitems]
    exact trueOf_only hself
  | some items =>
    by_cases hlen : items.length = operands.length
    · -- the index at which an outcome stands is the index of its operand and of its element
      have helements : outcomes r none nested .root s v = elementOutcomes r none nested .root 0 operands items := by
        rcases hs with rfl | rfl
        all_goals simp only [outcomes, hitems, if_pos hlen]
      intro o ho
      rw [helements] at ho
      obtain ⟨i, t, x, ht, hx, ho⟩ := mem_elementOutcomes ho
      rw [Nat.zero_add] at ho
      obtain ⟨o', ho', rfl⟩ := mem_outcomes_push ho
      exact trueOf_under (fun steps part => .operand hs ht) (follow?_index hitems hx)
        (h t (List.mem_of_getElem? ht) nested x o' ho')
    · have hself : outcomes r none nested .root s v = [⟨false, .root, s, v⟩] := by
        rcases hs with rfl | rfl
        all_goals simp only [outcomes, hitems, if_neg hlen]
      exact trueOf_only hself

theorem truthful (s : Spec) : Truthful r s := by
  induction s with
  | leaf name => exact fun nested v => trueOf_only rfl
  | predicate name test => exact fun nested v => trueOf_only rfl
  | listOf item ih =>
    intro nested v
    cases hitems : v.items? with
    | none => exact trueOf_only (by simp only [outcomes, hitems]; rfl)
    | some items =>
      intro o ho
      simp only [outcomes, hitems] at ho
      obtain ⟨outs, houts, ho⟩ := List.mem_flatten.1 ho
      obtain ⟨i, hi, rfl⟩ := List.mem_mapIdx.1 houts
      obtain ⟨o', ho', rfl⟩ := mem_outcomes_push ho
      exact trueOf_under (fun steps part => .element i) (follow?_index hitems (List.getElem?_eq_getElem hi))
        (ih nested items[i] o' ho')
  | operator op operands ih =>
    cases op with
    | all =>
      -- no step is made: the conjuncts are laid over the value itself
      intro nested v o ho
      obtain ⟨t, ht, ho⟩ := mem_operandOutcomes ho
      obtain ⟨hspec, hvalue, hpassed⟩ := ih t ht nested v o ho
      exact ⟨.conjunct ht hspec, hvalue, hpassed⟩
    | any => exact fun nested v => trueOf_only rfl
    | not => exact fun nested v => trueOf_only rfl
    | tuple => exact truthful_tuple (.inr rfl) ih
  | tuple operands ih => exact truthful_tuple (.inl rfl) ih
  | shape fields ih =>
    intro nested v
    cases hcomposite : v.isComposite with
    | false => exact trueOf_only (by simp only [outcomes, hcomposite]; rfl)
    | true =>
      -- without expansion the fields are those of the value as it is
      intro o ho
      simp only [outcomes, hcomposite, if_true, atShape_none, Expansion.apply_none] at ho
      obtain ⟨field, hfield, ho⟩ := mem_fieldOutcomes ho
      obtain ⟨o', ho', rfl⟩ := mem_outcomes_push ho
      exact trueOf_under (fun steps part => .field hfield) (follow?_key hcomposite field.1)
        (ih field hfield true _ o' ho')

end Spec

/-! ## Steps and diagnostics are true of their places -/

/-- The path of the step leads into the value and, the same way, to a part of the spec. The step shows the preview of
    the value and the label of the part that are found there, and a query for this part of this value answers what the
    step says. The path has fewer steps than the spec has levels. -/
structure Step.TrueOf (r : Registry) (s : Spec) (v : Value) (step : Step) : Prop where
  place : ∃ part found, s.LeadsTo step.path.segments part ∧ v.follow? step.path.segments = some found ∧
    step.expected = part.label ∧ step.actual = found.preview ∧ (Query.mk ⟨r, none⟩).is part found = .ok step.passed
  short : step.path.length < s.depth

theorem Outcome.TrueOf.step {r : Registry} {s : Spec} {v : Value} {o : Outcome} (h : o.TrueOf r s v)
    (hs : r.validate s = .ok ()) : o.step.TrueOf r s v where
  place := by
    refine ⟨o.spec, o.value, h.spec, h.value, rfl, rfl, ?_⟩
    rw [Query.is_eq, h.spec.validate hs, Matcher.isNone_firstFailure]
    exact congrArg Except.ok h.passed.symm
  short := by
    have hle := h.spec.length_add_depth_le
    have hpos := o.spec.depth_pos
    show o.path.segments.length < s.depth
    omega

/-- For a valid spec and without expansion, every step of the trace is true of the place that it names, and its path has
    63 steps at most. What an assertion ends with, if it is not met, is one of the failed steps. -/
theorem Query.trace_true_of_place (r : Registry) (s : Spec) (v : Value) (h : r.validate s = .ok ()) :
    ∃ t, (Query.mk ⟨r, none⟩).trace s v = .ok t ∧
      (∀ step ∈ t.steps, step.TrueOf r s v ∧ step.path.length ≤ 63) ∧
      ∀ heading description j d, (((Assertion.mk ⟨r, none⟩ heading).is s v description).run j).1 = .error (.assertion d) →
        Step.mk false d.path d.expected d.actual ∈ t.steps := by
  refine ⟨_, by rw [Query.trace_eq, h]; rfl, ?_, ?_⟩
  · intro step hstep
    obtain ⟨o, ho, rfl⟩ := List.mem_map.1 hstep
    have htrue := (s.truthful false v o ho).step h
    have hdepth : s.depth ≤ 64 := (Registry.validate_eq_ok_iff.1 h).1
    have hshort := htrue.short
    exact ⟨htrue, by omega⟩
  · intro heading description j d hd
    rw [Assertion.run_is, h] at hd
    cases hfailure : (Matcher.mk r none).firstFailure s v with
    | none => rw [hfailure] at hd; cases hd
    | some o =>
      rw [hfailure] at hd
      cases hd
      refine List.mem_map.2 ⟨o, List.mem_of_find?_eq_some hfailure, ?_⟩
      rw [Outcome.step, Matcher.failed_of_firstFailure hfailure]
      rfl

/-- The step of the second element of a field, below a conjunction. -/
theorem Query.trace_true_of_place_nested :
    let r : Registry := .ofTable Registry.presenceTests
    let s : Spec := .operator .all [.leaf "defined", .shape [("a", .tuple [.leaf "any", .leaf "nil"])]]
    let v : Value := .object none [("a", .array [.null, .bool true]), ("b", .null)]
    let p : Path := (Path.root.key "a").index 1
    r.validate s = .ok () ∧ (Step.mk false p "nil" "[boolean true]").TrueOf r s v ∧
      (((Assertion.mk ⟨r, none⟩ (.fixed "Pair:")).is s v "x").run .empty).1 =
        .error (.assertion ⟨"Pair:", "x.a.1", "nil", "[boolean true]", p⟩) := by
  intro r s v p
  obtain ⟨t, -, hsteps, hdiagnostic⟩ := Query.trace_true_of_place r s v rfl
  have hassertion : (((Assertion.mk ⟨r, none⟩ (.fixed "Pair:")).is s v "x").run .empty).1 =
      .error (.assertion ⟨"Pair:", "x.a.1", "nil", "[boolean true]", p⟩) := rfl
  have hmem := hdiagnostic (.fixed "Pair:") "x" .empty _ hassertion
  exact ⟨rfl, (hsteps _ hmem).1, hassertion⟩

end Conform

import Conform.Proofs.Dispatch
import Conform.Proofs.Parts
/- Faults of specs are a matter of the registry and the spec alone. `Registry.Verdict` says what is wrong with a spec
   without the search that finds it: the spec is too deep, or else a name without a test stands in it, and the first
   such name in reading order counts. Validation gives this verdict (`Registry.verdict_iff`), every dispatcher ends with
   its fault and with no other, whatever the value and the expansion, and in a walk of a valid spec or of any part of
   it no lookup fails (`validation_decides`). -/
namespace Conform

/-! ## The verdict on a spec -/

namespace Registry

/-- The first name without a test among those of the spec itself; those of its parts do not count. -/
def unregistered? (r : Registry) (s : Spec) : Option String :=
  s.ownNames.find? fun name => !r.contains name

theorem unregistered?_eq_none_iff {r : Registry} {s : Spec} :
    r.unregistered? s = none ↔ ∀ name ∈ s.ownNames, r.contains name = true := by
  rw [unregistered?, List.find?_eq_none]
  exact forall₂_congr fun name _ => by simp

theorem not_contains_of_unregistered? {r : Registry} {s : Spec} {name : String} (h : r.unregistered? s = some name) :
    r.contains name = false := by
  have hname := List.find?_some h
  simpa using hname

/-- What there is to say about a spec. A spec that is too deep is not searched for names; in the others the first name
    without a test is blamed, where leaves count as they are read and the names in a leaf from left to right. -/
inductive Verdict (r : Registry) (s : Spec) : Except SpecError Unit → Prop
  | tooDeep (hdepth : 64 < s.depth) : Verdict r s (.error (.depthExceeded s.depth 64))
  | unknown {pos : List Nat} {part : Spec} {name : String} (hdepth : s.depth ≤ 64)
      (hfirst : Document.FirstFault Spec.parts r.unregistered? s pos part name) :
      Verdict r s (.error (.unknownType name r.names))
  | valid (hdepth : s.depth ≤ 64)
      (hknown : ∀ pos part, Document.nodeAt? Spec.parts s pos = some part →
        ∀ name ∈ part.ownNames, r.contains name = true) :
      Verdict r s (.ok ())

theorem not_firstFault_of_known {r : Registry} {s part : Spec} {pos : List Nat} {name : String}
    (hknown : ∀ pos part, Document.nodeAt? Spec.parts s pos = some part →
      ∀ name ∈ part.ownNames, r.contains name = true) :
    ¬Document.FirstFault Spec.parts r.unregistered? s pos part name := by
  intro hfirst
  have hnone := unregistered?_eq_none_iff.2 (hknown _ _ hfirst.stands)
  rw [hfirst.faulty] at hnone
  cases hnone

theorem Verdict.unique {r : Registry} {s : Spec} {a b : Except SpecError Unit} (ha : Verdict r s a)
    (hb : Verdict r s b) : a = b := by
  cases ha with
  | tooDeep hdepth =>
    cases hb with
    | tooDeep _ => rfl
    | unknown hle _ | valid hle _ => omega
  | unknown hdepth hfirst =>
    cases hb with
    | tooDeep hlt => omega
    | unknown _ hother => rw [hfirst.unique hother]
    | valid _ hknown => exact absurd hfirst (not_firstFault_of_known hknown)
  | valid hdepth hknown =>
    cases hb with
    | tooDeep hlt => omega
    | unknown _ hfirst => exact absurd hfirst (not_firstFault_of_known hknown)
    | valid _ _ => rfl

theorem verdict_validate (r : Registry) (s : Spec) : Verdict r s (r.validate s) := by
  have hsearch := Spec.searches_find?_names fun name => !r.contains name
  unfold validate
  by_cases hdepth : maxSpecDepth < s.depth
  · rw [if_pos hdepth]
    exact .tooDeep hdepth
  · have hle : s.depth ≤ 64 := Nat.le_of_not_lt hdepth
    rw [if_neg hdepth]
    cases hfind : s.names.find? fun name => !r.contains name with
    | none =>
      have hnone := hsearch.eq_none_iff.1 hfind
      exact .valid hle fun pos part hpart => unregistered?_eq_none_iff.1 (hnone pos part hpart)
    | some name =>
      obtain ⟨pos, part, hfirst⟩ := hsearch.eq_some_iff.1 hfind
      exact .unknown hle hfirst

theorem verdict_iff {r : Registry} {s : Spec} {a : Except SpecError Unit} : Verdict r s a ↔ r.validate s = a := by
  constructor
  · exact fun h => (verdict_validate r s).unique h
  · rintro rfl
    exact verdict_validate r s

theorem Knows.of_mem_parts {r : Registry} {s t : Spec} (h : r.Knows s) (ht : t ∈ s.parts) : r.Knows t :=
  fun name hname => h name (Spec.mem_names_of_mem_parts ht hname)

theorem Knows.nodeAt? {r : Registry} {s t : Spec} (h : r.Knows s) {pos : List Nat}
    (ht : Document.nodeAt? Spec.parts s pos = some t) : r.Knows t := by
  induction pos generalizing s with
  | nil =>
    cases ht
    exact h
  | cons i pos ih =>
    obtain ⟨part, hpart, ht⟩ := Document.nodeAt?_cons_eq_some_iff.1 ht
    exact ih (h.of_mem_parts (List.mem_of_getElem? hpart)) ht

end Registry

/-! ## No lookup fails in a walk of a valid spec -/

/-- The action ends without a fault, whatever the state. -/
def Walk.Succeeds {ε σ α : Type} (action : Walk ε σ α) : Prop :=
  ∀ state, ∃ a after, action.run.run state = (.ok a, after)

namespace Spec
variable {ε σ : Type} {report : Report ε σ}

theorem succeeds_reportAll (hreport : ∀ o, (report o).Succeeds) (outs : List Outcome) :
    (reportAll report outs).Succeeds := by
  induction outs with
  | nil => exact fun state => ⟨true, state, rfl⟩
  | cons o rest ih =>
    intro state
    obtain ⟨goOn, after, ho⟩ := hreport o state
    rw [reportAll_cons, Walk.run_bind_ok ho]
    cases goOn with
    | false => exact ⟨false, after, rfl⟩
    | true => exact ih after

/-- Where no answer to a report is a fault, a walk of a known spec does not end with one. -/
theorem succeeds_walk [OfSpecError ε] {r : Registry} {s : Spec} (hknown : r.Knows s)
    (hreport : ∀ o, (report o).Succeeds) (mode : Option Expansion) (nested : Bool) (p : Path) (v : Value) :
    (s.walk r report mode nested p v).Succeeds := by
  rw [walk_eq_reportAll hknown]
  exact succeeds_reportAll hreport _

end Spec

/-! ## All dispatchers end with the fault of the verdict -/

/-- The fault of the spec in the answer of an assertion. -/
def Fault.specError? {α : Type} : Except Fault α → Option SpecError
  | .error (.spec e) => some e
  | _ => none

section
variable (m : Matcher) (heading : Heading) (sink : Sink) (s : Spec) (v : Value) (description : String) (j : Journal)

/-- The faults of the spec that the dispatchers over the matcher end with. -/
def specFaults : List (Option SpecError) :=
  [SpecError.ofAnswer? ((Query.mk m).is s v),
   SpecError.ofAnswer? ((Query.mk m).not s v),
   SpecError.ofAnswer? ((Query.mk m).trace s v),
   Fault.specError? (((Assertion.mk m heading).is s v description).run j).1,
   Fault.specError? (((Assertion.mk m heading).not s v description).run j).1,
   SpecError.ofAnswer? (((Check.mk m heading sink).is s v description).run j).1,
   SpecError.ofAnswer? (((Check.mk m heading sink).not s v description).run j).1]

theorem specFaults_eq :
    specFaults m heading sink s v description j = List.replicate 7 (SpecError.ofAnswer? (m.registry.validate s)) := by
  simp only [specFaults, Query.is_eq, Query.not, Query.trace_eq, Assertion.run_is, Assertion.run_not, Check.run_is,
    Check.run_not]
  cases m.registry.validate s with
  | error e => rfl
  | ok _ => cases m.firstFailure s v <;> rfl

end

/-- The verdict on a spec is a matter of the registry and the spec. It is that of validation, and a name that is blamed
    is not among the registered ones, which are listed in order. All dispatchers end with a fault of the spec exactly
    where validation finds one, with the same, whatever the expansion and the value. Once the spec is valid, every name
    in it and in its parts has a test, and no walk of a part ends with a fault unless the answer to a report is one. -/
theorem validation_decides (r : Registry) (s : Spec) :
    (∀ a, r.Verdict s a ↔ r.validate s = a) ∧
    (∀ name available, r.validate s = .error (.unknownType name available) →
      available.Pairwise (· < ·) ∧ (∀ n, n ∈ available ↔ r.contains n = true) ∧ name ∉ available) ∧
    (∀ mode heading sink v description j, ∀ fault ∈ specFaults ⟨r, mode⟩ heading sink s v description j,
      fault = SpecError.ofAnswer? (r.validate s)) ∧
    (r.validate s = .ok () → ∀ pos part, Document.nodeAt? Spec.parts s pos = some part →
      (∀ name ∈ part.ownNames, (r.find? name).isSome = true) ∧
      ∀ (ε σ : Type) [OfSpecError ε] (report : Report ε σ), (∀ o, (report o).Succeeds) →
        ∀ mode nested p v, (part.walk r report mode nested p v).Succeeds) := by
  refine ⟨fun a => Registry.verdict_iff, ?_, ?_, ?_⟩
  · intro name available h
    cases Registry.verdict_iff.2 h with
    | unknown _ hfirst =>
      refine ⟨r.pairwise_names, fun n => Registry.mem_names_iff, ?_⟩
      rw [Registry.mem_names_iff, Registry.not_contains_of_unregistered? hfirst.faulty]
      exact Bool.false_ne_true
  · intro mode heading sink v description j fault hfault
    rw [specFaults_eq] at hfault
    exact List.eq_of_mem_replicate hfault
  · intro h pos part hpart
    have hknown : r.Knows part := (Registry.validate_eq_ok_iff.1 h).2.nodeAt? hpart
    refine ⟨fun name hname => hknown name ?_, fun ε σ _ report hreport => Spec.succeeds_walk hknown hreport⟩
    rw [Spec.names_eq]
    exact List.mem_append_left _ hname

/-- The second name of the first leaf is blamed by all. In a spec that is valid, the operand behind one that accepts
    everything is walked without a fault too. -/
theorem validation_decides_skipped :
    let r : Registry := .ofTable Registry.presenceTests
    let s : Spec := .shape [("a", .listOf (.leaf "nil | undef")), ("b", .leaf "other")]
    let t : Spec := .operator .any [.leaf "any", .leaf "nil | defined"]
    ("undef" ∉ r.names ∧
      ∀ fault ∈ specFaults ⟨r, some .deep⟩ (.fixed "Point:") .memory s .null "x" .empty, fault = some (r.unknown "undef")) ∧
    (r.validate t = .ok () ∧
      ∀ v, ((Spec.leaf "nil | defined").walk r Spec.quietly none false .root v : Walk SpecError Unit Bool).Succeeds) := by
  intro r s t
  obtain ⟨-, hunknown, hfaults, -⟩ := validation_decides r s
  obtain ⟨-, -, -, hvalid⟩ := validation_decides r t
  refine ⟨⟨(hunknown "undef" r.names rfl).2.2, ?_⟩, rfl, ?_⟩
  · exact hfaults (some .deep) (.fixed "Point:") .memory .null "x" .empty
  · intro v
    exact (hvalid rfl [1] (.leaf "nil | defined") rfl).2 SpecError Unit Spec.quietly
      (fun o state => ⟨o.passed, state, rfl⟩) none false .root v

end Conform

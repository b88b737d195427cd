import Conform.Proofs.Dispatch
/- Traces beside the dispatchers that stop. A trace goes past every failure, and its steps are all the tests that the
   spec makes, so its flag says whether all of them passed (`Query.trace_complete`). An assertion stops at the first
   failure with a fault, and a check stops there with a warning: both blame the first step of the trace that failed
   (`blame_agrees`). -/
namespace Conform

/-! ## The steps of a trace are all the tests of the spec -/

theorem all_passed_map_step (outs : List Outcome) :
    (∀ step ∈ outs.map Outcome.step, step.passed = true) ↔ outs.all Outcome.passed = true := by
  rw [List.forall_mem_map, List.all_eq_true]
  rfl

/-- For a valid spec there is a trace, whatever the value. Its steps show the tests of the spec from the first to the
    last, failed or not, and nothing else. The value matches when all steps passed. -/
theorem Query.trace_complete (q : Query) (s : Spec) (v : Value) (h : q.matcher.registry.validate s = .ok ()) :
    ∃ t, q.trace s v = .ok t ∧
      t.steps = (s.outcomes q.matcher.registry q.matcher.expansion false .root v).map Outcome.step ∧
      (t.matched = true ↔ ∀ step ∈ t.steps, step.passed = true) := by
  refine ⟨_, by rw [Query.trace_eq, h]; rfl, rfl, ?_⟩
  show (q.matcher.firstFailure s v).isNone = true ↔
    ∀ step ∈ (q.matcher.outcomes s v).map Outcome.step, step.passed = true
  rw [all_passed_map_step, Matcher.all_passed_eq_isNone_find?]
  exact Iff.rfl

/-- The tests of the second element are made although that of the first failed. -/
theorem Query.trace_complete_pair :
    ∃ t, (Query.mk ⟨.ofTable Registry.presenceTests, none⟩).trace
        (.tuple [.leaf "nil", .operator .all [.leaf "defined", .leaf "null"]]) (.array [.bool true, .null]) = .ok t ∧
      t.steps = [⟨false, .index .root 0, "nil", "[boolean true]"⟩, ⟨true, .index .root 1, "defined", "[null]"⟩,
        ⟨true, .index .root 1, "null", "[null]"⟩] ∧
      (t.matched = true ↔ ∀ step ∈ t.steps, step.passed = true) :=
  Query.trace_complete _ _ _ rfl

/-! ## The first failure is blamed by all -/

theorem find?_failed_map_step (outs : List Outcome) :
    ((outs.map Outcome.step).find? fun step => !step.passed) = (outs.find? fun o => !o.passed).map Outcome.step := by
  rw [List.find?_map]
  rfl

/-- Where the value does not match, an assertion and a check with the same heading blame the first step of the trace
    that failed: the diagnostic of the assertion shows this step, and the check writes the text of this diagnostic as a
    warning and nothing else. Where the value matches, no step failed and nothing is written. -/
theorem blame_agrees (m : Matcher) (text : String) (sink : Sink) (s : Spec) (v : Value) (description : String)
    (j k : Journal) :
    ((Query.mk m).is s v = .ok false →
      ∃ t f, (Query.mk m).trace s v = .ok t ∧ (t.steps.find? fun step => !step.passed) = some f ∧
        ∃ d, (((Assertion.mk m (.fixed text)).is s v description).run j).1 = .error (.assertion d) ∧
          d = ⟨text, f.path.describe description, f.expected, f.actual, f.path⟩ ∧
          ((Check.mk m (.fixed text) sink).is s v description).run k =
            (.ok false, k.withHeading.add sink ⟨.warn, (Fault.assertion d).message⟩)) ∧
    ((Query.mk m).is s v = .ok true →
      (∃ t, (Query.mk m).trace s v = .ok t ∧ ∀ step ∈ t.steps, step.passed = true) ∧
        ((Check.mk m (.fixed text) sink).is s v description).run k = (.ok true, k)) := by
  rw [Query.is_eq, Query.trace_eq, Assertion.run_is, Check.run_is]
  cases m.registry.validate s with
  | error e =>
    constructor <;> intro his <;> cases his
  | ok _ =>
    have hfirst := find?_failed_map_step (m.outcomes s v)
    rw [← Matcher.firstFailure] at hfirst
    constructor
    · intro his
      cases hfailure : m.firstFailure s v with
      | none => rw [hfailure] at his; cases his
      | some o =>
        refine ⟨_, o.step, rfl, ?_, _, rfl, rfl, rfl⟩
        rw [hfirst, hfailure]
        rfl
    · intro his
      cases hfailure : m.firstFailure s v with
      | some o => rw [hfailure] at his; cases his
      | none =>
        refine ⟨⟨_, rfl, ?_⟩, rfl⟩
        rw [all_passed_map_step, Matcher.all_passed_eq_isNone_find?, ← Matcher.firstFailure, hfailure]
        rfl

theorem blame_agrees_pair :
    let m : Matcher := ⟨.ofTable Registry.presenceTests, none⟩
    let s : Spec := .tuple [.leaf "nil", .operator .all [.leaf "defined", .leaf "null"]]
    (∃ d, (((Assertion.mk m (.fixed "Pair:")).is s (.array [.bool true, .null]) "x").run .empty).1 =
        .error (.assertion d) ∧ d.path = .index .root 0 ∧
      ((Check.mk m (.fixed "Pair:") .memory).is s (.array [.bool true, .null]) "x").run .empty =
        (.ok false, ⟨1, [⟨.warn, (Fault.assertion d).message⟩]⟩)) ∧
    ((Check.mk m (.fixed "Pair:") .memory).is s (.array [.null, .null]) "x").run .empty = (.ok true, .empty) := by
  intro m s
  obtain ⟨t, f, ht, hf, d, hassertion, hd, hcheck⟩ :=
    (blame_agrees m "Pair:" .memory s (.array [.bool true, .null]) "x" .empty .empty).1 rfl
  obtain rfl : Outcome.step ⟨false, .index .root 0, .leaf "nil", .bool true⟩ = f := by
    cases ht
    exact Option.some.inj hf
  refine ⟨⟨d, hassertion, by rw [hd]; rfl, hcheck⟩, ?_⟩
  exact ((blame_agrees m "Pair:" .memory s (.array [.null, .null]) "x" .empty .empty).2 rfl).2

end Conform

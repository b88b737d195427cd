import Conform.Proofs.Trace
/- When the dispatchers over two matchers say the same of two values. Their answers, diagnostics and lines depend on
   the value through the steps of its trace and its preview alone, so matchers with one registry whose traces have the
   same steps cannot be told apart (`sameAnswers_of_steps`). -/
namespace Conform

section
variable (m m' : Matcher) (heading : Heading) (sink : Sink) (s : Spec) (v w : Value) (description : String) (j : Journal)

/-- The dispatchers over the first matcher say of the first value what those over the second say of the second: they give
    the same answers and leave the same journal. -/
structure SameAnswers : Prop where
  query_is : (Query.mk m).is s v = (Query.mk m').is s w
  query_not : (Query.mk m).not s v = (Query.mk m').not s w
  trace : (Query.mk m).trace s v = (Query.mk m').trace s w
  assertion_is : ((Assertion.mk m heading).is s v description).run j =
    ((Assertion.mk m' heading).is s w description).run j
  assertion_not : ((Assertion.mk m heading).not s v description).run j =
    ((Assertion.mk m' heading).not s w description).run j
  check_is : ((Check.mk m heading sink).is s v description).run j =
    ((Check.mk m' heading sink).is s w description).run j
  check_not : ((Check.mk m heading sink).not s v description).run j =
    ((Check.mk m' heading sink).not s w description).run j

end

theorem Outcome.diagnostic_eq_of_step {o o' : Outcome} (h : o.step = o'.step) (heading description : String) :
    o.diagnostic heading description = o'.diagnostic heading description := by
  simp only [Outcome.step, Step.mk.injEq] at h
  obtain ⟨-, hpath, hlabel, hpreview⟩ := h
  simp only [Outcome.diagnostic, hpath, hlabel, hpreview]

theorem Diagnostic.unwanted_eq_of_preview {v w : Value} (h : v.preview = w.preview) (heading description : String)
    (s : Spec) : Diagnostic.unwanted heading description s v = Diagnostic.unwanted heading description s w := by
  simp only [Diagnostic.unwanted, h]

variable {m m' : Matcher} {s : Spec} {v w : Value}

theorem firstFailure_cases_of_steps (hsteps : (m.outcomes s v).map Outcome.step = (m'.outcomes s w).map Outcome.step) :
    (m.firstFailure s v = none ∧ m'.firstFailure s w = none) ∨
    ∃ o o', m.firstFailure s v = some o ∧ m'.firstFailure s w = some o' ∧ o.step = o'.step := by
  have hfirst : (m.firstFailure s v).map Outcome.step = (m'.firstFailure s w).map Outcome.step := by
    rw [Matcher.firstFailure, Matcher.firstFailure, ← find?_failed_map_step, ← find?_failed_map_step, hsteps]
  cases ho : m.firstFailure s v with
  | none =>
    cases ho' : m'.firstFailure s w with
    | none => exact .inl ⟨rfl, rfl⟩
    | some o' => rw [ho, ho'] at hfirst; cases hfirst
  | some o =>
    cases ho' : m'.firstFailure s w with
    | none => rw [ho, ho'] at hfirst; cases hfirst
    | some o' =>
      rw [ho, ho'] at hfirst
      exact .inr ⟨o, o', rfl, rfl, Option.some.inj hfirst⟩

/-- The steps of the trace and the preview of the value are all that the dispatchers show of it. -/
theorem sameAnswers_of_steps (hregistry : m.registry = m'.registry)
    (hsteps : (m.outcomes s v).map Outcome.step = (m'.outcomes s w).map Outcome.step)
    (hpreview : v.preview = w.preview) (heading : Heading) (sink : Sink) (description : String) (j : Journal) :
    SameAnswers m m' heading sink s v w description j := by
  have hunwanted := fun heading => Diagnostic.unwanted_eq_of_preview hpreview heading description s
  have hcases := firstFailure_cases_of_steps hsteps
  have his : (Query.mk m).is s v = (Query.mk m').is s w := by
    rw [Query.is_eq, Query.is_eq, hregistry]
    rcases hcases with ⟨ho, ho'⟩ | ⟨o, o', ho, ho', -⟩
    · rw [ho, ho']
    · rw [ho, ho']
      rfl
  have htrace : (Query.mk m).trace s v = (Query.mk m').trace s w := by
    rw [Query.trace_eq, Query.trace_eq, hregistry, hsteps]
    rcases hcases with ⟨ho, ho'⟩ | ⟨o, o', ho, ho', -⟩
    · rw [ho, ho']
    · rw [ho, ho']
      rfl
  refine ⟨his, by rw [Query.not, his]; rfl, htrace, ?_, ?_, ?_, ?_⟩
  · rw [Assertion.run_is, Assertion.run_is, hregistry]
    cases m'.registry.validate s with
    | error e => rfl
    | ok _ =>
      rcases hcases with ⟨ho, ho'⟩ | ⟨o, o', ho, ho', hstep⟩
      · simp only [ho, ho']
      · simp only [ho, ho', Outcome.diagnostic_eq_of_step hstep]
  · rw [Assertion.run_not, Assertion.run_not, hregistry]
    cases m'.registry.validate s with
    | error e => rfl
    | ok _ =>
      rcases hcases with ⟨ho, ho'⟩ | ⟨o, o', ho, ho', -⟩
      · simp only [ho, ho', hunwanted]
      · simp only [ho, ho']
  · rw [Check.run_is, Check.run_is, hregistry]
    cases m'.registry.validate s with
    | error e => rfl
    | ok _ =>
      rcases hcases with ⟨ho, ho'⟩ | ⟨o, o', ho, ho', hstep⟩
      · simp only [ho, ho']
      · simp only [ho, ho', Check.said, Outcome.diagnostic_eq_of_step hstep]
  · rw [Check.run_not, Check.run_not, hregistry]
    cases m'.registry.validate s with
    | error e => rfl
    | ok _ =>
      rcases hcases with ⟨ho, ho'⟩ | ⟨o, o', ho, ho', -⟩
      · simp only [ho, ho', Check.said, hunwanted]
      · simp only [ho, ho']

end Conform

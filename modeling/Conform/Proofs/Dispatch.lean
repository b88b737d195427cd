import Conform.Dispatch
import Conform.Registry.Standard
import Conform.Proofs.Matcher
/- What queries, assertions and checks do, said by the fault that validation finds and the first test that fails. The
   walk of a query answers silently, that of an assertion ends with a fault, and that of a check writes and ends with
   `false`. Each dispatcher has one equation that gives its answer and the journal that it leaves. From these follow
   that a query computes what the spec means (`Query.is_eq_accepts`) and that all dispatchers over one matcher give one
   verdict (`dispatchers_agree`). -/
namespace Conform

/-- The journal after one more heading was made. -/
def Journal.withHeading (j : Journal) : Journal :=
  { j with headings := j.headings + 1 }

/-! ## One equation for each dispatcher -/

namespace Query

theorem is_eq (q : Query) (s : Spec) (v : Value) :
    q.is s v = (q.matcher.registry.validate s).map fun _ => (q.matcher.firstFailure s v).isNone :=
  q.matcher.holds_eq s v

theorem trace_eq (q : Query) (s : Spec) (v : Value) :
    q.trace s v = (q.matcher.registry.validate s).map fun _ =>
      ⟨(q.matcher.firstFailure s v).isNone, (q.matcher.outcomes s v).map Outcome.step⟩ := by
  rw [trace, is_eq, Matcher.record_eq]
  cases q.matcher.registry.validate s <;> rfl

end Query

namespace Assertion
variable (a : Assertion) (s : Spec) (v : Value) (description : String) (j : Journal)

/-- An assertion stops with a fault, so nothing after the failed test is reported. -/
theorem stopsAtFailure_blame : Spec.StopsAtFailure (a.blame description) where
  goes_on := by rintro ⟨_, p, s, v⟩ rfl; rfl
  stops := by rintro ⟨_, p, s, v⟩ rfl rest; rfl

theorem run_is : (a.is s v description).run j =
    match a.matcher.registry.validate s, a.matcher.firstFailure s v with
    | .error e, _ => (.error (.spec e), j)
    | .ok _, none => (.ok (), j)
    | .ok _, some o => (.error (.assertion (o.diagnostic (a.heading j.headings) description)), j.withHeading) := by
  rw [is, Matcher.run_eq, StateT.run_bind]
  cases a.matcher.registry.validate s with
  | error e => rfl
  | ok _ =>
    rw [(a.stopsAtFailure_blame description).reportAll_eq, ← Matcher.firstFailure]
    cases hfailure : a.matcher.firstFailure s v with
    | none => rfl
    | some o =>
      obtain ⟨_, p, part, found⟩ := o
      obtain rfl := Matcher.failed_of_firstFailure hfailure
      rfl

theorem run_not : (a.not s v description).run j =
    match a.matcher.registry.validate s, a.matcher.firstFailure s v with
    | .error e, _ => (.error (.spec e), j)
    | .ok _, some _ => (.ok (), j)
    | .ok _, none => (.error (.assertion (.unwanted (a.heading j.headings) description s v)), j.withHeading) := by
  rw [Assertion.not, Matcher.holds_eq]
  cases a.matcher.registry.validate s with
  | error e => rfl
  | ok _ => cases a.matcher.firstFailure s v <;> rfl

end Assertion

namespace Check
variable (c : Check) (s : Spec) (v : Value) (description : String) (j : Journal)

/-- The journal after a check said something: a heading was made, and a line was written. -/
def said (level : Level) (text : String → String) : Journal :=
  j.withHeading.add c.sink ⟨level, text (c.heading j.headings)⟩

/-- A check stops with `false` when its warning is written, so no other failed test is warned about. -/
theorem stopsAtFailure_report : Spec.StopsAtFailure (c.report description) where
  goes_on := by rintro ⟨_, p, s, v⟩ rfl; rfl
  stops := by rintro ⟨_, p, s, v⟩ rfl rest; rfl

theorem run_is : (c.is s v description).run j =
    match c.matcher.registry.validate s, c.matcher.firstFailure s v with
    | .error e, _ => (.error e, c.said j .error fun heading => errorMessage heading e)
    | .ok _, none => (.ok true, j)
    | .ok _, some o => (.ok false, c.said j .warn fun heading => (o.diagnostic heading description).message) := by
  rw [is, Matcher.run_eq, StateT.run_bind]
  cases c.matcher.registry.validate s with
  | error e => rfl
  | ok _ =>
    rw [(c.stopsAtFailure_report description).reportAll_eq, ← Matcher.firstFailure]
    cases hfailure : c.matcher.firstFailure s v with
    | none => rfl
    | some o =>
      obtain ⟨_, p, part, found⟩ := o
      obtain rfl := Matcher.failed_of_firstFailure hfailure
      rfl

theorem run_not : (c.not s v description).run j =
    match c.matcher.registry.validate s, c.matcher.firstFailure s v with
    | .error e, _ => (.error e, c.said j .error fun heading => errorMessage heading e)
    | .ok _, some _ => (.ok true, j)
    | .ok _, none =>
      (.ok false, c.said j .warn fun heading => (Diagnostic.unwanted heading description s v).message) := by
  rw [Check.not, Matcher.holds_eq]
  cases c.matcher.registry.validate s with
  | error e => rfl
  | ok _ => cases c.matcher.firstFailure s v <;> rfl

end Check

/-! ## A query computes what the spec means -/

/-- For a valid spec a query answers, whatever the value, and the answer is whether the spec describes the value. -/
theorem Query.is_eq_accepts (q : Query) (s : Spec) (v : Value) (h : q.matcher.registry.validate s = .ok ()) :
    q.is s v = .ok (s.accepts q.matcher.registry q.matcher.expansion false v) := by
  rw [Query.is_eq, h, Matcher.isNone_firstFailure]
  rfl

theorem Query.is_eq_accepts_records :
    (Query.mk ⟨.ofTable Registry.presenceTests, none⟩).is
      (.listOf (.operator .any [.leaf "null | undefined", .shape [("name", .operator .not [.leaf "nil"])]]))
      (.array [.null, .object none [("name", .bool true)], .undefined]) = .ok true :=
  (Query.is_eq_accepts _ _ _ rfl).trans rfl

/-! ## All dispatchers give one verdict -/

section
variable (m : Matcher) (heading : Heading) (sink : Sink) (s : Spec) (v : Value) (description : String) (j : Journal)

/-- All dispatchers over the matcher end with the fault of the spec. -/
structure AllRefuse (e : SpecError) : Prop where
  query_is : (Query.mk m).is s v = .error e
  query_not : (Query.mk m).not s v = .error e
  trace : (Query.mk m).trace s v = .error e
  assertion_is : (((Assertion.mk m heading).is s v description).run j).1 = .error (.spec e)
  assertion_not : (((Assertion.mk m heading).not s v description).run j).1 = .error (.spec e)
  check_is : (((Check.mk m heading sink).is s v description).run j).1 = .error e
  check_not : (((Check.mk m heading sink).not s v description).run j).1 = .error e

/-- All dispatchers over the matcher find that the value matches the spec, or all find that it does not. An assertion
    that is not met ends with a diagnostic and not with a fault of the spec. -/
structure AllAnswer (matched : Bool) : Prop where
  query_is : (Query.mk m).is s v = .ok matched
  query_not : (Query.mk m).not s v = .ok !matched
  trace : ∃ t, (Query.mk m).trace s v = .ok t ∧ t.matched = matched
  assertion_is : if matched then (((Assertion.mk m heading).is s v description).run j).1 = .ok ()
    else ∃ d, (((Assertion.mk m heading).is s v description).run j).1 = .error (.assertion d)
  assertion_not : if matched then ∃ d, (((Assertion.mk m heading).not s v description).run j).1 = .error (.assertion d)
    else (((Assertion.mk m heading).not s v description).run j).1 = .ok ()
  check_is : (((Check.mk m heading sink).is s v description).run j).1 = .ok matched
  check_not : (((Check.mk m heading sink).not s v description).run j).1 = .ok !matched

theorem allRefuse_of_invalid {e : SpecError} (h : m.registry.validate s = .error e) :
    AllRefuse m heading sink s v description j e where
  query_is := by rw [Query.is_eq, h]; rfl
  query_not := by rw [Query.not, Query.is_eq, h]; rfl
  trace := by rw [Query.trace_eq, h]; rfl
  assertion_is := by rw [Assertion.run_is, h]
  assertion_not := by rw [Assertion.run_not, h]
  check_is := by rw [Check.run_is, h]
  check_not := by rw [Check.run_not, h]

theorem allAnswer_of_valid (h : m.registry.validate s = .ok ()) :
    AllAnswer m heading sink s v description j (m.firstFailure s v).isNone where
  query_is := by rw [Query.is_eq, h]; rfl
  query_not := by rw [Query.not, Query.is_eq, h]; rfl
  trace := ⟨_, by rw [Query.trace_eq, h]; rfl, rfl⟩
  assertion_is := by
    rw [Assertion.run_is, h]
    cases m.firstFailure s v with
    | none => exact rfl
    | some o => exact ⟨_, rfl⟩
  assertion_not := by
    rw [Assertion.run_not, h]
    cases m.firstFailure s v with
    | none => exact ⟨_, rfl⟩
    | some o => exact rfl
  check_is := by
    rw [Check.run_is, h]
    cases m.firstFailure s v <;> rfl
  check_not := by
    rw [Check.run_not, h]
    cases m.firstFailure s v <;> rfl

/-- Where a query ends with a fault of the spec, validation found it, and all dispatchers end with it; where a query
    gives an answer, the spec is valid, and all dispatchers give this answer. -/
theorem dispatchers_agree :
    (∀ e, (Query.mk m).is s v = .error e →
      m.registry.validate s = .error e ∧ AllRefuse m heading sink s v description j e) ∧
    (∀ matched, (Query.mk m).is s v = .ok matched →
      m.registry.validate s = .ok () ∧ AllAnswer m heading sink s v description j matched) := by
  rw [Query.is_eq]
  cases h : m.registry.validate s with
  | error e =>
    refine ⟨?_, ?_⟩
    · intro e' he
      cases he
      exact ⟨rfl, allRefuse_of_invalid m heading sink s v description j h⟩
    · intro matched hmatched
      cases hmatched
  | ok _ =>
    refine ⟨?_, ?_⟩
    · intro e he
      cases he
    · intro matched hmatched
      cases hmatched
      exact ⟨rfl, allAnswer_of_valid m heading sink s v description j h⟩

end

/-- A spec that is met, one that is not met and one with an unknown name. -/
theorem dispatchers_agree_on_undefined :
    let m : Matcher := ⟨.ofTable Registry.presenceTests, none⟩
    AllAnswer m (.fixed "Point:") .memory (.operator .not [.leaf "defined"]) .undefined "x" .empty true ∧
    AllAnswer m (.fixed "Point:") .memory (.shape [("x", .leaf "any")]) .undefined "x" .empty false ∧
    AllRefuse m (.fixed "Point:") .memory (.leaf "undef") .undefined "x" .empty (m.registry.unknown "undef") :=
  ⟨((dispatchers_agree _ _ _ _ _ _ _).2 _ rfl).2, ((dispatchers_agree _ _ _ _ _ _ _).2 _ rfl).2,
    ((dispatchers_agree _ _ _ _ _ _ _).1 _ rfl).2⟩

end Conform

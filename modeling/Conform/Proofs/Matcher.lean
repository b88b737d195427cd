import Conform.Dispatch
import Conform.Proofs.Walk
/- What a matcher finds, for every spec and value. A spec that is not valid is refused with the fault that validation
   finds; a valid one is never refused, and its outcomes are reported (`run_eq`). So `record` gives the outcomes, and
   `holds` whether none of them failed. -/
namespace Conform.Matcher
open Spec

def outcomes (m : Matcher) (s : Spec) (v : Value) : List Outcome :=
  s.outcomes m.registry m.expansion false .root v

def firstFailure (m : Matcher) (s : Spec) (v : Value) : Option Outcome :=
  (m.outcomes s v).find? fun o => !o.passed

theorem failed_of_firstFailure {m : Matcher} {s : Spec} {v : Value} {o : Outcome} (h : m.firstFailure s v = some o) :
    o.passed = false := by
  rw [firstFailure] at h
  have hfailed := List.find?_some h
  simpa using hfailed

theorem all_passed_eq_isNone_find? (outs : List Outcome) :
    outs.all Outcome.passed = (outs.find? fun o => !o.passed).isNone := by
  induction outs with
  | nil => rfl
  | cons o rest ih =>
    rw [List.all_cons, List.find?_cons, ih]
    cases o.passed <;> rfl

theorem isNone_firstFailure (m : Matcher) (s : Spec) (v : Value) :
    (m.firstFailure s v).isNone = s.accepts m.registry m.expansion false v := by
  rw [firstFailure, ← all_passed_eq_isNone_find?]
  exact all_passed_outcomes s false .root v

/-- A matcher refuses a spec that is not valid, and reports the outcomes of a valid one. -/
theorem run_eq {ε σ : Type} [OfSpecError ε] (m : Matcher) (report : Report ε σ) (s : Spec) (v : Value) :
    m.run report s v =
      match m.registry.validate s with
      | .error e => throw (ofSpecError e)
      | .ok _ => reportAll report (m.outcomes s v) := by
  rw [run]
  cases h : m.registry.validate s with
  | error e => rfl
  | ok _ =>
    exact walk_eq_reportAll (Registry.validate_eq_ok_iff.1 h).2 report false .root v

/-- Keeping goes through all outcomes and puts them behind those that are kept already. -/
theorem run_reportAll_keep (outs kept : List Outcome) :
    (reportAll keep outs).run.run kept = (.ok true, kept ++ outs) := by
  induction outs generalizing kept with
  | nil => rw [List.append_nil]; rfl
  | cons o rest ih =>
    -- the outcome is kept before the rest is reported, so the rest starts from one more
    have ih := ih (kept ++ [o])
    rw [List.append_assoc] at ih
    exact ih

theorem holds_eq (m : Matcher) (s : Spec) (v : Value) :
    m.holds s v = (m.registry.validate s).map fun _ => (m.firstFailure s v).isNone := by
  rw [holds, run_eq]
  cases m.registry.validate s with
  | error e => rfl
  | ok _ =>
    simp only [reportAll_quietly, all_passed_eq_isNone_find?]
    rfl

theorem record_eq (m : Matcher) (s : Spec) (v : Value) :
    m.record s v = (m.registry.validate s).map fun _ => m.outcomes s v := by
  rw [record, run_eq]
  cases m.registry.validate s with
  | error e => rfl
  | ok _ =>
    simp only [run_reportAll_keep]
    rfl

end Conform.Matcher

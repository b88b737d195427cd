import Conform.Diagnostic
import Conform.Journal
import Conform.Walk
/- Dispatchers: the ways to ask whether a value matches a spec. All of them validate the spec before they lay it over the
   value, so a fault of the spec comes to light whatever the value. A query answers and writes nothing; its trace lists
   every test that was made, passed or not. To an assertion a value that does not match is a fault: the first test that
   fails is blamed, and a heading is made only for that. To a check it is a warning, and the caller goes on; a fault of
   the spec is written as an error and given back too. -/
namespace Conform

/-! ## Matchers -/

/-- What specs are read against. -/
structure Matcher where
  registry : Registry
  expansion : Option Expansion

namespace Matcher

/-- Validates a spec and lays it over a value. -/
def run {ε σ : Type} [OfSpecError ε] (m : Matcher) (report : Report ε σ) (s : Spec) (v : Value) :
    Walk ε σ Bool := do
  Walk.demand (m.registry.validate s)
  s.walk m.registry report m.expansion false .root v

/-- The value matches the spec. -/
def holds (m : Matcher) (s : Spec) (v : Value) : Except SpecError Bool :=
  ((m.run Spec.quietly s v : Walk SpecError Unit Bool).run.run ()).1

/-- Every outcome is kept, and none ends the walk. -/
def keep : Report SpecError (List Outcome) := fun o => do
  modify (· ++ [o])
  return true

/-- All outcomes, from the first to the last. -/
def record (m : Matcher) (s : Spec) (v : Value) : Except SpecError (List Outcome) :=
  let (answer, outcomes) := (m.run keep s v).run.run []
  answer.map fun _ => outcomes

def outline (m : Matcher) : Outline :=
  .record "MatchOptions" [("undot", .ofOption Expansion.outline m.expansion)] true

end Matcher

/-! ## Queries -/

/-- One test as it is shown. -/
structure Step where
  passed : Bool
  path : Path
  /-- The label of the part of the spec that was tested. -/
  expected : String
  /-- The preview of the value. -/
  actual : String
  deriving DecidableEq, Repr

def Outcome.step (o : Outcome) : Step :=
  ⟨o.passed, o.path, o.spec.label, o.value.preview⟩

/-- Whether a value matched, and the tests that were made. -/
structure Trace where
  matched : Bool
  steps : List Step
  deriving DecidableEq, Repr

def Trace.failures (t : Trace) : List Step :=
  t.steps.filter fun step => !step.passed

/-- Asks whether values match specs. -/
structure Query where
  matcher : Matcher

namespace Query

/-- The value matches the spec. -/
def is (q : Query) (s : Spec) (v : Value) : Except SpecError Bool :=
  q.matcher.holds s v

def not (q : Query) (s : Spec) (v : Value) : Except SpecError Bool :=
  (q.is s v).map Bool.not

/-- The value is accepted by a test that the name names. -/
def isNamed (q : Query) (name : String) (v : Value) : Except SpecError Bool :=
  q.is (.leaf name) v

def notNamed (q : Query) (name : String) (v : Value) : Except SpecError Bool :=
  q.not (.leaf name) v

/-- Whether the value matches the spec, with all tests made by a walk that no failure ends. -/
def trace (q : Query) (s : Spec) (v : Value) : Except SpecError Trace := do
  let matched ← q.is s v
  let outcomes ← q.matcher.record s v
  return ⟨matched, outcomes.map Outcome.step⟩

def outline (q : Query) : Outline :=
  .record "Query" [("options", q.matcher.outline)] false

end Query

/-! ## Assertions -/

/-- The diagnostic of a test that failed. -/
def Outcome.diagnostic (o : Outcome) (heading description : String) : Diagnostic :=
  ⟨heading, o.path.describe description, o.spec.label, o.value.preview, o.path⟩

/-- The diagnostic of a value that matches a spec although it should not. -/
def Diagnostic.unwanted (heading description : String) (s : Spec) (v : Value) : Diagnostic :=
  ⟨heading, description, "not " ++ s.label, v.preview, .root⟩

/-- Requires values to match specs. -/
structure Assertion where
  matcher : Matcher
  heading : Heading

namespace Assertion

/-- A failed test is a fault, which ends the walk. -/
def blame (a : Assertion) (description : String) : Report Fault Journal := fun o =>
  if o.passed then return true
  else do
    let heading ← a.heading.next
    throw (.assertion (o.diagnostic heading description))

/-- Requires the value to match the spec. -/
def is (a : Assertion) (s : Spec) (v : Value) (description : String) : Journaled (Except Fault Unit) := do
  let answer ← (a.matcher.run (a.blame description) s v).run
  return answer.map fun _ => ()

def not (a : Assertion) (s : Spec) (v : Value) (description : String) : Journaled (Except Fault Unit) :=
  match a.matcher.holds s v with
  | .error e => return .error (.spec e)
  | .ok false => return .ok ()
  | .ok true => do
    let heading ← a.heading.next
    return .error (.assertion (.unwanted heading description s v))

def isNamed (a : Assertion) (name : String) (v : Value) (description : String) :
    Journaled (Except Fault Unit) :=
  a.is (.leaf name) v description

def notNamed (a : Assertion) (name : String) (v : Value) (description : String) :
    Journaled (Except Fault Unit) :=
  a.not (.leaf name) v description

/-- The structure of an assertion, for which a heading is made. -/
def outline (a : Assertion) : Journaled Outline := do
  let heading ← a.heading.next
  return .record "Assert" [("prefix", .quoted heading), ("options", a.matcher.outline)] false

end Assertion

/-! ## Checks -/

/-- Checks whether values match specs and says so where they do not. -/
structure Check where
  matcher : Matcher
  heading : Heading
  sink : Sink

namespace Check

def warn (c : Check) (diagnostic : String → Diagnostic) : Journaled Unit := do
  let heading ← c.heading.next
  c.sink.write .warn (diagnostic heading).message

/-- The text of an error: the heading, if there is one, and the fault. -/
def errorMessage (heading : String) (e : SpecError) : String :=
  if heading.isEmpty then e.message else heading ++ " " ++ e.message

/-- Writes a fault of a spec as an error. -/
def surface (c : Check) (e : SpecError) : Journaled Unit := do
  let heading ← c.heading.next
  c.sink.write .error (errorMessage heading e)

/-- A failed test is warned about and ends the walk. -/
def report (c : Check) (description : String) : Report SpecError Journal := fun o => do
  if !o.passed then c.warn fun heading => o.diagnostic heading description
  return o.passed

/-- Checks that the value matches the spec. -/
def is (c : Check) (s : Spec) (v : Value) (description : String) : Journaled (Except SpecError Bool) := do
  match ← (c.matcher.run (c.report description) s v).run with
  | .error e => do
    c.surface e
    return .error e
  | .ok matched => return .ok matched

def not (c : Check) (s : Spec) (v : Value) (description : String) : Journaled (Except SpecError Bool) :=
  match c.matcher.holds s v with
  | .error e => do
    c.surface e
    return .error e
  | .ok false => return .ok true
  | .ok true => do
    c.warn fun heading => .unwanted heading description s v
    return .ok false

def isNamed (c : Check) (name : String) (v : Value) (description : String) :
    Journaled (Except SpecError Bool) :=
  c.is (.leaf name) v description

def notNamed (c : Check) (name : String) (v : Value) (description : String) :
    Journaled (Except SpecError Bool) :=
  c.not (.leaf name) v description

/-- The structure of a check, for which a heading is made. -/
def outline (c : Check) : Journaled Outline := do
  let heading ← c.heading.next
  return .record "Check" [("prefix", .quoted heading), ("options", c.matcher.outline)] false

end Check

end Conform

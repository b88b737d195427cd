import Conform.Installer
import Conform.Registry.Standard
import Conform.Spec.OfJson
/- Fixtures: a spec with cases that say which values match it. Running a fixture puts each case to all six ways of
   asking - query, assertion and check, each with its negation - and reports every answer that does not fit. A fixture
   with an error expects instead that all six fail with a fault of the spec whose text holds the given one. All cases run
   in one harness, over the registry with the tests of numbers, where messages have one heading and are kept. -/
namespace Conform

namespace Harness

def heading : String := "Fixture:"

/-- The dispatchers of the harness. -/
def context (expansion : Option Expansion) : Context :=
  .make ⟨.numeric, expansion⟩ (.fixed heading) .memory

end Harness

/-- One value and what is expected of it. -/
structure Case where
  name : String
  value : Json
  /-- The value matches. Fixtures with an error do not look at it. -/
  expected : Bool
  /-- What the message about a value that does not match has to hold. -/
  message : Option String
  /-- Where a value that does not match has to fail. -/
  path : Option String

/-- A spec with cases. -/
structure Fixture where
  name : String
  description : String
  spec : Json
  expansion : Option Expansion
  /-- What the text of the fault of the spec has to hold, if a fault is expected. -/
  error : Option String
  cases : List Case

/-- What came of a case: a line for each answer that does not fit. -/
structure CaseResult where
  name : String
  mismatches : List String
  deriving DecidableEq, Repr

namespace CaseResult

def passed (r : CaseResult) : Bool :=
  r.mismatches.isEmpty

end CaseResult

namespace Fixture

/-- One line if the condition fails. -/
def lineUnless (condition : Bool) (line : String) : List String :=
  if condition then [] else [line]

def verdictText (answer : Except SpecError Bool) : String :=
  (Outline.ofExcept SpecError.outline Outline.ofBool answer).render

def faultText (answer : Except Fault Unit) : String :=
  (Outline.ofExcept Fault.outline (fun _ => Outline.ofUnit) answer).render

def messagesText (messages : List String) : String :=
  (Outline.list (messages.map .quoted)).render

def isVerdict (expected : Bool) : Except SpecError Bool → Bool
  | .ok b => b = expected
  | .error _ => false

/-- A query or check has to answer the truth value. -/
def verdictMismatches (way : String) (expected : Bool) (answer : Except SpecError Bool) : List String :=
  lineUnless (isVerdict expected answer)
    (way ++ ": expected Ok(" ++ (Outline.ofBool expected).render ++ "), got " ++ verdictText answer)

/-- What a diagnostic lacks of what a case asks for. -/
def diagnosticMismatches (c : Case) (d : Diagnostic) : List String :=
  (c.message.elim [] fun message =>
    lineUnless (Text.occurs message d.message)
      ("assert.is: message " ++ Outline.quote d.message ++ " lacks " ++ Outline.quote message)) ++
  (c.path.elim [] fun path =>
    lineUnless (d.path.dotted = path)
      ("assert.is: failed at " ++ Outline.quote d.path.dotted ++ ", expected " ++ Outline.quote path))

/-- An assertion has to pass a value that matches and to fail one that does not, with the right diagnostic. -/
def assertionMismatches (c : Case) (answer : Except Fault Unit) : List String :=
  match answer, c.expected with
  | .ok (), true => []
  | .error (.assertion d), false => diagnosticMismatches c d
  | answer, _ => ["assert.is: unexpected " ++ faultText answer]

def isNegated (expected : String) : Bool :=
  "not ".toList.isPrefixOf expected.toList

/-- A negated assertion has to pass a value that does not match and to fail one that does. -/
def negatedAssertionMismatches (c : Case) (answer : Except Fault Unit) : List String :=
  match answer, c.expected with
  | .ok (), false => []
  | .error (.assertion d), true =>
    lineUnless (isNegated d.expected) ("assert.not: unexpected " ++ faultText answer)
  | answer, _ => ["assert.not: unexpected " ++ faultText answer]

/-- A check has to warn as often as expected. -/
def countMismatches (way : String) (expected : Nat) (warnings : List String) : List String :=
  lineUnless (warnings.length = expected)
    (way ++ ": expected " ++ toString expected ++ " warning(s), got " ++ messagesText warnings)

/-- A check has to warn once about a value that does not match, with the message that a case asks for. -/
def warningMismatches (c : Case) (warnings : List String) : List String :=
  let expected := if c.expected then 0 else 1
  if warnings.length ≠ expected then countMismatches "check.is" expected warnings
  else match c.message, warnings with
    | some message, warning :: _ =>
      lineUnless (Text.occurs message warning)
        ("check.is: warning " ++ Outline.quote warning ++ " lacks " ++ Outline.quote message)
    | _, _ => []

/-- Puts a case to all six ways of asking. -/
def caseMismatches (context : Context) (s : Spec) (c : Case) : Journaled (List String) := do
  let v := Value.ofJson c.value
  let required ← context.assertion.is s v ""
  let refused ← context.assertion.not s v ""
  let checked ← context.check.is s v ""
  let warnings := (← get).texts .warn
  let _ ← Journal.Request.run .clear
  let unchecked ← context.check.not s v ""
  let negatedWarnings := (← get).texts .warn
  return verdictMismatches "query.is" c.expected (context.query.is s v) ++
    verdictMismatches "query.not" (!c.expected) (context.query.not s v) ++
    assertionMismatches c required ++
    negatedAssertionMismatches c refused ++
    verdictMismatches "check.is" c.expected checked ++
    warningMismatches c warnings ++
    verdictMismatches "check.not" (!c.expected) unchecked ++
    countMismatches "check.not" (if c.expected then 1 else 0) negatedWarnings

/-- Runs a case in a harness of its own. -/
def runCase (f : Fixture) (s : Spec) (c : Case) : CaseResult :=
  ⟨c.name, ((caseMismatches (Harness.context f.expansion) s c).run .empty).1⟩

/-- The answer without the truth value in it, as an answer of an assertion. -/
def forget (answer : Except SpecError Bool) : Except Fault Unit :=
  match answer with
  | .ok _ => .ok ()
  | .error e => .error (.spec e)

/-- The answer is a fault of the spec whose text holds the given one. -/
def isExpectedError (expected : String) : Except Fault Unit → Bool
  | .error (.spec e) => Text.occurs expected e.message
  | _ => false

/-- A way of asking has to fail with the expected fault. -/
def errorMismatches (expected way : String) (answer : Except Fault Unit) : List String :=
  lineUnless (isExpectedError expected answer)
    (way ++ ": expected error containing " ++ Outline.quote expected ++ ", got " ++ faultText answer)

/-- Puts a value to all six ways of asking, which all have to fail. -/
def faultMismatches (context : Context) (s : Spec) (expected : String) (v : Value) :
    Journaled (List String) := do
  let required ← context.assertion.is s v ""
  let refused ← context.assertion.not s v ""
  let checked ← context.check.is s v ""
  let unchecked ← context.check.not s v ""
  let errors := (← get).texts .error
  let warnings := (← get).texts .warn
  return errorMismatches expected "query.is" (forget (context.query.is s v)) ++
    errorMismatches expected "query.not" (forget (context.query.not s v)) ++
    errorMismatches expected "assert.is" required ++
    errorMismatches expected "assert.not" refused ++
    errorMismatches expected "check.is" (forget checked) ++
    errorMismatches expected "check.not" (forget unchecked) ++
    lineUnless (errors.length = 2) ("check: expected 2 sink errors, got " ++ messagesText errors) ++
    lineUnless warnings.isEmpty ("check: unexpected warnings " ++ messagesText warnings)

/-- Runs a value in a harness of its own, where a fault of the spec is expected. -/
def runFault (f : Fixture) (s : Spec) (expected name : String) (v : Value) : CaseResult :=
  ⟨name, ((faultMismatches (Harness.context f.expansion) s expected v).run .empty).1⟩

/-- The values of the cases with their names; null where there are no cases. -/
def probes (f : Fixture) : List (String × Value) :=
  if f.cases.isEmpty then [("(null)", .null)] else f.cases.map fun c => (c.name, .ofJson c.value)

def readingName : String := "(parse)"

def run (f : Fixture) : List CaseResult :=
  match f.error, Spec.ofJson f.spec with
  | none, .ok s => f.cases.map (f.runCase s)
  | none, .error e => [⟨readingName, ["spec did not parse: " ++ e.message]⟩]
  | some expected, .ok s => f.probes.map fun (name, v) => f.runFault s expected name v
  | some expected, .error e =>
    [⟨readingName, lineUnless (Text.occurs expected e.message)
      ("parse: " ++ e.message ++ " lacks " ++ Outline.quote expected)⟩]

/-- What there is to complain about: the first case that did not pass, with all its lines. -/
def complaint? (f : Fixture) : Option String :=
  (f.run.find? fun r => !r.passed).map fun r =>
    "Fixture '" ++ f.name ++ "' case '" ++ r.name ++ "' failed:\n  " ++ "\n  ".intercalate r.mismatches

end Fixture

end Conform

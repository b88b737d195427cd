import Conform.Spec.Error
import Conform.Value
/- Failed expectations. A diagnostic says what was expected and what was found and where; a fault of an assertion is
   a diagnostic or a fault of the spec. -/
namespace Conform

/-- A failed expectation. -/
structure Diagnostic where
  /-- Who speaks. May be empty. -/
  heading : String
  /-- What the value is called, with the place of the failure. May be empty. -/
  description : String
  /-- The label of what was expected. -/
  expected : String
  /-- The preview of what was found. -/
  actual : String
  /-- The place of the failure inside the value. -/
  path : Path
  deriving DecidableEq, Repr

/-- The text of a failed expectation. An empty heading or description is left out together with its blank. -/
def failureMessage (heading description expected actual : String) : String :=
  let lead := fun part : String => if part.isEmpty then "" else part ++ " "
  lead heading ++ lead description ++ "expected " ++ expected ++ " but got " ++ actual

namespace Diagnostic

def message (d : Diagnostic) : String :=
  failureMessage d.heading d.description d.expected d.actual

def outline (d : Diagnostic) : Outline :=
  .record "Diagnostic"
    [("prefix", .quoted d.heading), ("description", .quoted d.description),
     ("expected", .quoted d.expected), ("actual", .quoted d.actual), ("path", d.path.outline)] true

end Diagnostic

/-- What an assertion can end with. -/
inductive Fault where
  /-- The spec is at fault, whatever the value. -/
  | spec (error : SpecError)
  /-- The value does not look as expected. -/
  | assertion (diagnostic : Diagnostic)
  deriving DecidableEq, Repr

instance : OfSpecError Fault := ⟨.spec⟩

namespace Fault

def message : Fault → String
  | spec error => error.message
  | assertion diagnostic => diagnostic.message

def diagnostic? : Fault → Option Diagnostic
  | spec _ => none
  | assertion diagnostic => some diagnostic

def outline : Fault → Outline
  | spec error => error.outline
  | assertion diagnostic => .tagged "Assertion" [diagnostic.outline]

end Fault

end Conform

import Conform.Path
import Conform.Spec
/- What can be wrong with a spec, apart from any value. `SpecError.message` is the text of each fault. -/
namespace Conform

/-- A fault of a spec. -/
inductive SpecError where
  /-- An empty list stands where a spec should. -/
  | emptySpec (place : Path)
  /-- A word stands for an operator but is no keyword. -/
  | unknownOperator (keyword : String) (place : Path)
  /-- A leaf names a test that is not registered; the registered names are given. -/
  | unknownType (name : String) (available : List String)
  /-- Something stands where a spec should that is none. -/
  | invalidSpec (place : Path) (reason : String)
  /-- The spec is deeper than allowed. -/
  | depthExceeded (depth limit : Nat)
  deriving DecidableEq, Repr

namespace SpecError

def emptyNameReason (name : String) : String :=
  "empty type name in \"" ++ name ++ "\""

/-- Why a number, a truth value or null is no spec. -/
def noSpecReason (found : String) : String :=
  "expected a type name, list or map, found " ++ found

def message : SpecError → String
  | emptySpec place =>
    "empty type spec `[]` at " ++ place.display ++ " — use `[\"any\"]` for a list of anything"
  | unknownOperator keyword place =>
    "unknown operator \"" ++ keyword ++ "\" at " ++ place.display ++ " — known operators: " ++
      ", ".intercalate Operator.keywords
  | unknownType name available =>
    "unknown type \"" ++ name ++ "\" — " ++
      (if available.isEmpty then "no types are registered"
       else "registered: " ++ ", ".intercalate available)
  | invalidSpec place reason => "invalid type spec at " ++ place.display ++ ": " ++ reason
  | depthExceeded depth limit =>
    "type spec nesting depth is " ++ toString depth ++ ", but maximum allowed is " ++ toString limit

def outline : SpecError → Outline
  | emptySpec place => .record "EmptySpec" [("at", place.outline)] true
  | unknownOperator keyword place =>
    .record "UnknownOperator" [("keyword", .quoted keyword), ("at", place.outline)] true
  | unknownType name available =>
    .record "UnknownType" [("name", .quoted name), ("available", .list (available.map .quoted))] true
  | invalidSpec place reason =>
    .record "InvalidSpec" [("at", place.outline), ("reason", .quoted reason)] true
  | depthExceeded depth limit =>
    .record "DepthExceeded" [("depth", .ofNat depth), ("max", .ofNat limit)] true

/-- The place in the data that is at fault. Faults against a registry have none. -/
def place? : SpecError → Option Path
  | emptySpec place | unknownOperator _ place | invalidSpec place _ => some place
  | unknownType _ _ | depthExceeded _ _ => none

/-- The fault that an answer is, if it is one. -/
def ofAnswer? {α : Type} : Except SpecError α → Option SpecError
  | .error e => some e
  | .ok _ => none

@[simp] theorem ofAnswer?_map {α β : Type} (f : α → β) (answer : Except SpecError α) :
    ofAnswer? (answer.map f) = ofAnswer? answer := by
  cases answer <;> rfl

theorem ofAnswer?_eq_some_iff {α : Type} {answer : Except SpecError α} {e : SpecError} :
    ofAnswer? answer = some e ↔ answer = .error e := by
  cases answer <;> simp [ofAnswer?]

theorem ofAnswer?_eq_none_iff {α : Type} {answer : Except SpecError α} :
    ofAnswer? answer = none ↔ ∃ a, answer = .ok a := by
  cases answer <;> simp [ofAnswer?]

end SpecError

/-- The faults that an action can end with, where those of specs are among them. -/
class OfSpecError (ε : Type) where
  ofSpecError : SpecError → ε

export OfSpecError (ofSpecError)

instance : OfSpecError SpecError := ⟨id⟩

end Conform

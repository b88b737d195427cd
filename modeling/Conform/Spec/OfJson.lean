import Conform.Spec
import Conform.Spec.Error
import Conform.Json
import Conform.Json.Printer
/- Specs written as JSON. A text names tests; a list with one item is a list of it; a longer list is an operator keyword
   with operands; a map with one member whose name starts with `$` is an operator too; every other map is a shape. Operands
   and fields are read from left to right, and the first fault ends the reading with the place where it was found. -/
namespace Conform.Spec

/-- The keyword that the head of a list stands for: a text itself, else how the data is written. -/
def headText : Json → String
  | .string s => s
  | head => head.print

/-- The operator that the head of a list means. Only texts mean one. -/
def headOperator? : Json → Option Operator
  | .string s => Operator.ofKeyword? s
  | _ => none

/-- The name starts with the sign of operators. -/
def hasSigil (name : String) : Bool :=
  name.toList.head? = some '$'

/-- A leaf, unless one of its names is blank. -/
def leafAt (p : Path) (name : String) : Except SpecError Spec :=
  if (leafNames name).any String.isEmpty then
    .error (.invalidSpec p (SpecError.emptyNameReason name))
  else .ok (leaf name)

mutual

/-- The spec that JSON data stands for at a place. -/
def ofJsonAt (p : Path) (json : Json) : Except SpecError Spec :=
  match json with
  | .string name => leafAt p name
  | .array items =>
    match items with
    | [] => .error (.emptySpec p)
    | [item] => (ofJsonAt (p.index 0) item).map listOf
    | head :: operands =>
      match headOperator? head with
      | none => .error (.unknownOperator (headText head) p)
      | some op => (operandsAt p 1 operands).map (combine op)
  | .object members =>
    match members with
    | [(name, operand)] =>
      if hasSigil name then
        match Operator.ofKeyword? name with
        | none => .error (.unknownOperator name p)
        | some op =>
          -- what is no list stands for the only operand
          (match operand with
            | .array operands => operandsAt (p.key name) 0 operands
            | single => (ofJsonAt (p.key name) single).map fun s => [s]).map (combine op)
      else (ofJsonAt (p.key name) operand).map fun s => shape [(name, s)]
    | members => (fieldsAt p members).map shape
  | other => .error (.invalidSpec p (SpecError.noSpecReason other.print))
termination_by structural json

/-- The specs of a list of operands, the first of which has the given index. -/
def operandsAt (p : Path) (start : Nat) : List Json → Except SpecError (List Spec)
  | [] => .ok []
  | item :: rest => do
    let s ← ofJsonAt (p.index start) item
    let others ← operandsAt p (start + 1) rest
    return s :: others
termination_by structural items => items

def fieldsAt (p : Path) : List (String × Json) → Except SpecError (List (String × Spec))
  | [] => .ok []
  | (name, item) :: rest => do
    let s ← ofJsonAt (p.key name) item
    let others ← fieldsAt p rest
    return (name, s) :: others
termination_by structural members => members

end

def ofJson (json : Json) : Except SpecError Spec :=
  ofJsonAt .root json

def ofText (text : String) : Except SpecError Spec :=
  match Json.read? text with
  | some json => ofJson json
  | none => .error (.invalidSpec .root "the text is not JSON")

end Conform.Spec

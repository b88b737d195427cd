import Conform.Value
import Conform.Text
import Conform.Outline
/- Expansion of dotted keys. A record that was flattened into keys such as `db.host` is laid out again as objects
   inside objects. A key is dotted when text stands on both sides of its first dot. `shallow` cuts dotted keys of the
   object itself at their first dot; `deep` cuts at every dot and does the same for the objects inside its fields.
   Where two fields come to lie at one place, objects are merged and otherwise the later one replaces the earlier one,
   in the order of the keys. -/
namespace Conform

/-- How far dotted keys are cut. -/
inductive Expansion where
  | shallow
  | deep
  deriving DecidableEq, Repr

namespace Expansion

def name : Expansion → String
  | shallow => "shallow"
  | deep => "deep"

def outline : Expansion → Outline
  | shallow => .word "Shallow"
  | deep => .word "Deep"

def ofName? (s : String) : Option Expansion :=
  [shallow, deep].find? fun mode => mode.name = s

/-- There is text on both sides of the first dot. -/
def isDotted (key : String) : Bool :=
  match Text.splitOnce '.' key with
  | some (head, rest) => head ≠ "" && rest ≠ ""
  | none => false

/-- The keys from the outside to the inside that a key stands for: its head and the others. -/
def keyPath (mode : Expansion) (key : String) : String × List String :=
  if !isDotted key then (key, [])
  else match mode with
    | shallow => match Text.splitOnce '.' key with
      | some (head, rest) => (head, [rest])
      | none => (key, [])
    | deep => match Text.split '.' key with
      | head :: rest => (head, rest)
      | [] => (key, [])

/-- A value inside objects with one field each. -/
def nest (keys : List String) (v : Value) : Value :=
  keys.foldr (fun key inner => .object none [(key, inner)]) v

mutual

/-- Stores a value among fields. An object that meets an object is merged into it field by field; in all other cases
    the value that comes replaces the one that is there. -/
def mergeField (key : String) (fields : List (String × Value)) (v : Value) : List (String × Value) :=
  match v with
  | .object tag incoming =>
    match Entries.find? key fields with
    -- the class of the object that is there stays
    | some (.object kept existing) =>
      Entries.insert key (.object kept (mergeFields existing incoming)) fields
    | _ => Entries.insert key (.object tag incoming) fields
  | v => Entries.insert key v fields
termination_by structural v

def mergeFields (fields : List (String × Value)) : List (String × Value) → List (String × Value)
  | [] => fields
  | (key, v) :: rest => mergeFields (mergeField key fields v) rest
termination_by structural incoming => incoming

end

/-- Stores a field at the place that its key stands for. -/
def place (mode : Expansion) (fields : List (String × Value)) (entry : String × Value) :
    List (String × Value) :=
  let (head, rest) := mode.keyPath entry.1
  mergeField head fields (nest rest entry.2)

/-- The fields, each stored at the place that its key stands for. -/
def placeAll (mode : Expansion) (fields : List (String × Value)) : List (String × Value) :=
  fields.foldl mode.place []

mutual

/-- The value with all dotted keys cut, if it is an object, and those of the objects that are reached from it through
    fields. -/
def expandDeep : Value → Value
  | .object tag fields => .object tag (placeAll .deep (expandDeepFields fields))
  | v => v

def expandDeepFields : List (String × Value) → List (String × Value)
  | [] => []
  | (key, v) :: rest => (key, expandDeep v) :: expandDeepFields rest

end

/-- The value with the dotted keys cut that the mode looks at. -/
def expand : Expansion → Value → Value
  | shallow, .object tag fields => .object tag (placeAll .shallow fields)
  | shallow, v => v
  | deep, v => expandDeep v

mutual

/-- An object that is reached through fields has a dotted key. -/
def hasDottedKey : Value → Bool
  | .object _ fields => anyDottedKey fields
  | _ => false

/-- A field has a dotted key or holds an object in which one is reached. -/
def anyDottedKey : List (String × Value) → Bool
  | [] => false
  | (key, v) :: rest => isDotted key || hasDottedKey v || anyDottedKey rest

end

/-- There is a dotted key where the mode looks. -/
def applies : Expansion → Value → Bool
  | shallow, v => v.fields.any fun entry => isDotted entry.1
  | deep, v => hasDottedKey v

/-- The expanded value, if there is something to expand. -/
def expand? (mode : Expansion) (v : Value) : Option Value :=
  if mode.applies v then some (mode.expand v) else none

/-- The value as a walk sees it: expanded if a mode is given and there is something to expand. -/
def apply (mode : Option Expansion) (v : Value) : Value :=
  (mode.bind fun mode => mode.expand? v).getD v

@[simp] theorem apply_none (v : Value) : apply none v = v := rfl

end Expansion

end Conform

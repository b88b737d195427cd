import Conform.Entries
import Conform.Json
/- Records: data with named fields, some of which may be missing. A format says by `RecordSource` what a record, a list, a
   text and so on is in it; the rules for fields that are required, that have a default or that may be null are the same
   in all formats. In JSON a record is written as an object with its fields as members, where other members do not matter,
   or as the list of its fields in their order, where the last ones may be left out; one of several choices is written as
   its name, or as an object with its name as the only member and null behind it. -/
namespace Conform

/-- Data of a format from which records are read. Each function gives nothing if the data is not of its kind. -/
class RecordSource (X : Type) where
  /-- The fields that a record with the given field names is written with. -/
  fields? : List String → X → Option (List (String × X))
  /-- The items of a list. -/
  items? : X → Option (List X)
  /-- The data stands for nothing. -/
  isNull : X → Bool
  /-- The text of a text. -/
  text? : X → Option String
  /-- The truth value of a truth value. -/
  bool? : X → Option Bool
  /-- The name of one of several choices. -/
  choice? : X → Option String
  /-- The data as it is. -/
  json? : X → Option Json

namespace Record

variable {X α : Type}

/-- A field that has to be there, read by its own rule. -/
def required? (name : String) (read : X → Option α) (fields : List (String × X)) : Option α :=
  (Entries.find? name fields).bind read

/-- A field that may be missing. One that is there has to be readable. -/
def withDefault? (name : String) (missing : α) (read : X → Option α) (fields : List (String × X)) : Option α :=
  match Entries.find? name fields with
  | none => some missing
  | some x => read x

/-- Data that is null stands for nothing. -/
def nullable? [RecordSource X] (read : X → Option α) (x : X) : Option (Option α) :=
  if RecordSource.isNull x then some none else (read x).map some

end Record

/-! ## Records in JSON -/

namespace Json

/-- The fields that a record is written with; nothing if the data is no record. -/
def recordFields? (names : List String) : Json → Option (List (String × Json))
  | object members => some members
  | array items => if items.length ≤ names.length then some (names.zip items) else none
  | _ => none

def items? : Json → Option (List Json)
  | array items => some items
  | _ => none

def isNull : Json → Bool
  | null => true
  | _ => false

def text? : Json → Option String
  | string s => some s
  | _ => none

def bool? : Json → Option Bool
  | bool b => some b
  | _ => none

/-- The name of a choice. -/
def choice? : Json → Option String
  | string s => some s
  | object [(s, null)] => some s
  | _ => none

instance : RecordSource Json where
  fields? := recordFields?
  items? := items?
  isNull := isNull
  text? := text?
  bool? := bool?
  choice? := choice?
  json? := some

end Json

end Conform

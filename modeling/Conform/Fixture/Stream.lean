import Conform.Fixture
import Conform.Yaml
/- Fixtures in streams of YAML documents, one fixture in each document. Fixtures, their cases and the options of a matcher
   are records: of a case only the name is required, of a fixture the name and the spec. -/
namespace Conform

variable {X : Type} [RecordSource X]

namespace Expansion

def read? (x : X) : Option Expansion :=
  (RecordSource.choice? x).bind ofName?

/-- The way to expand that options ask for. Without the field, or with null in it, there is none. -/
def readOptions? (x : X) : Option (Option Expansion) := do
  let fields ← RecordSource.fields? ["undot"] x
  Record.withDefault? "undot" none (Record.nullable? read?) fields

end Expansion

namespace Case

def fieldNames : List String :=
  ["name", "value", "expect", "message", "path"]

def read? (x : X) : Option Case := do
  let fields ← RecordSource.fields? fieldNames x
  let name ← Record.required? "name" RecordSource.text? fields
  let value ← Record.withDefault? "value" .null RecordSource.json? fields
  let expected ← Record.withDefault? "expect" false RecordSource.bool? fields
  let message ← Record.withDefault? "message" none (Record.nullable? RecordSource.text?) fields
  let path ← Record.withDefault? "path" none (Record.nullable? RecordSource.text?) fields
  return ⟨name, value, expected, message, path⟩

end Case

namespace Fixture

def fieldNames : List String :=
  ["name", "description", "spec", "options", "error", "cases"]

def readCases? (x : X) : Option (List Case) := do
  let items ← RecordSource.items? x
  items.mapM Case.read?

def read? (x : X) : Option Fixture := do
  let fields ← RecordSource.fields? fieldNames x
  let name ← Record.required? "name" RecordSource.text? fields
  let description ← Record.withDefault? "description" "" RecordSource.text? fields
  let spec ← Record.required? "spec" RecordSource.json? fields
  let expansion ← Record.withDefault? "options" none Expansion.readOptions? fields
  let error ← Record.withDefault? "error" none (Record.nullable? RecordSource.text?) fields
  let cases ← Record.withDefault? "cases" [] readCases? fields
  return ⟨name, description, spec, expansion, error, cases⟩

def ofDocument? (document : Yaml) : Option Fixture :=
  read? (Yaml.Cursor.ofDocument document)

/-- The fixtures of a stream, one for each document. There is at least one. -/
def ofStream? (text : String) : Option (List Fixture) := do
  let documents ← Yaml.readStream? text
  if documents.isEmpty then none else documents.mapM ofDocument?

/-- The fixture of a stream with one document. -/
def ofText? (text : String) : Option Fixture := do
  match ← ofStream? text with
  | [f] => return f
  | _ => none

end Fixture

end Conform

import Conform.Entries
import Conform.Json
/- The data under test. A value is one of fifteen kinds. A composite is what a shape can be laid over, a primitive has no
   identity of its own, and the two kinds left over are arrays and functions. Only objects have fields; these are a table
   sorted by name, and `Value.Ordered` says so for a value and everything inside it. A preview shows a value in messages:
   its kind and what tells it apart at a glance - a number in full, a text up to a length, the size of an array, the class
   of a composite. JSON data is a value in which every number is the nearest number of 64 bits and every object a plain
   one without a class. -/
namespace Conform

/-- A value without a fixed type. -/
inductive Value where
  | undefined
  | null
  | bool (b : Bool)
  | number (n : Binary64)
  | bigint (n : Int)
  | string (s : String)
  | symbol (description : Option String)
  | array (items : List Value)
  | object (tag : Option String) (fields : List (String × Value))
  | function (name : Option String) (async : Bool)
  | regex (source : String)
  | error (name message : String)
  | promise
  | set (items : List Value)
  | map (entries : List (Value × Value))
  deriving Repr, Inhabited

namespace Value

def kind : Value → String
  | undefined => "undefined"
  | null => "null"
  | bool _ => "boolean"
  | number _ => "number"
  | bigint _ => "bigint"
  | string _ => "string"
  | symbol _ => "symbol"
  | array _ => "array"
  | object _ _ => "object"
  | function _ _ => "function"
  | regex _ => "regexp"
  | error _ _ => "error"
  | promise => "promise"
  | set _ => "set"
  | map _ => "map"

def isUndefined : Value → Bool
  | undefined => true
  | _ => false

def isNull : Value → Bool
  | null => true
  | _ => false

def isArray : Value → Bool
  | array _ => true
  | _ => false

def isObject : Value → Bool
  | object _ _ => true
  | _ => false

/-- A shape can be laid over the value: everything with identity except arrays and functions. -/
def isComposite : Value → Bool
  | object _ _ | regex _ | error _ _ | promise | set _ | map _ => true
  | _ => false

/-- The value has no identity: it is no composite, no array and no function. -/
def isPrimitive : Value → Bool
  | undefined | null | bool _ | number _ | bigint _ | string _ | symbol _ => true
  | _ => false

/-- Undefined, null, false, the zeros, NaN and the empty text. -/
def isFalsy : Value → Bool
  | undefined | null => true
  | bool b => !b
  | number n => n.isZero || n.isNaN
  | bigint n => n = 0
  | string s => s.isEmpty
  | _ => false

/-- An object is plain when it has no class of its own. -/
def isPlainTag (tag : Option String) : Bool :=
  tag.getD "Object" = "Object"

def isPlain : Value → Bool
  | object tag _ => isPlainTag tag
  | _ => false

def text? : Value → Option String
  | string s => some s
  | _ => none

def number? : Value → Option Binary64
  | number n => some n
  | _ => none

def items? : Value → Option (List Value)
  | array items => some items
  | _ => none

/-- The fields of an object; no other value has any. -/
def fields : Value → List (String × Value)
  | object _ fields => fields
  | _ => []

def field? (key : String) (v : Value) : Option Value :=
  Entries.find? key v.fields

/-- A field, or undefined where there is none. -/
def fieldOrUndefined (key : String) (v : Value) : Value :=
  (v.field? key).getD undefined

/-- The number of characters of a text, of elements of a collection, or of fields of a plain object. The other
    values have no size. -/
def size? : Value → Option Nat
  | string s => some s.length
  | array items | set items => some items.length
  | map entries => some entries.length
  | object tag fields => if isPlainTag tag then some fields.length else none
  | _ => none

def className? : Value → Option String
  | object tag _ => some (tag.getD "Object")
  | regex _ => some "RegExp"
  | error name _ => some name
  | promise => some "Promise"
  | set _ => some "Set"
  | map _ => some "Map"
  | _ => none

/-- The object of a class with the given entries. Of two entries with one name the later one stays. -/
def ofFields (tag : Option String) (entries : List (String × Value)) : Value :=
  object tag (Entries.ofList entries)

mutual

/-- The fields of the value and of every value inside it are sorted by name. -/
def Ordered : Value → Prop
  | array items | set items => ItemsOrdered items
  | object _ fields => Entries.Sorted fields ∧ FieldsOrdered fields
  | map entries => EntriesOrdered entries
  | _ => True

def ItemsOrdered : List Value → Prop
  | [] => True
  | v :: rest => Ordered v ∧ ItemsOrdered rest

def FieldsOrdered : List (String × Value) → Prop
  | [] => True
  | (_, v) :: rest => Ordered v ∧ FieldsOrdered rest

def EntriesOrdered : List (Value × Value) → Prop
  | [] => True
  | (k, v) :: rest => Ordered k ∧ Ordered v ∧ EntriesOrdered rest

end

theorem fieldsOrdered_iff {fields : List (String × Value)} :
    FieldsOrdered fields ↔ ∀ field ∈ fields, field.2.Ordered := by
  induction fields with
  | nil => simp [FieldsOrdered]
  | cons field rest ih => rw [FieldsOrdered, ih, List.forall_mem_cons]

theorem ordered_ofFields (tag : Option String) {entries : List (String × Value)}
    (h : ∀ entry ∈ entries, entry.2.Ordered) : (ofFields tag entries).Ordered := by
  refine ⟨Entries.sorted_ofList entries, fieldsOrdered_iff.2 fun entry hentry => ?_⟩
  rcases Entries.mem_of_mem_insertAll hentry with hmem | hmem
  · exact h entry hmem
  · cases hmem

theorem Ordered.sorted_fields {v : Value} (h : v.Ordered) : Entries.Sorted v.fields := by
  cases v with
  | object tag fields => exact h.1
  | _ => exact Entries.sorted_nil

/-- To prove something of every value, prove it of arrays from their elements, of objects from their fields, and of all
    other values as they are. -/
theorem induction {motive : Value → Prop} (array : ∀ items, (∀ x ∈ items, motive x) → motive (array items))
    (object : ∀ tag fields, (∀ field ∈ fields, motive field.2) → motive (object tag fields))
    (other : ∀ v, v.isArray = false → v.isObject = false → motive v) (v : Value) : motive v :=
  @Value.rec motive (fun items => ∀ x ∈ items, motive x) (fun fields => ∀ field ∈ fields, motive field.2)
    (fun _ => True) (fun field => motive field.2) (fun _ => True)
    (other _ rfl rfl) (other _ rfl rfl) (fun _ => other _ rfl rfl) (fun _ => other _ rfl rfl)
    (fun _ => other _ rfl rfl) (fun _ => other _ rfl rfl) (fun _ => other _ rfl rfl) array object
    (fun _ _ => other _ rfl rfl) (fun _ => other _ rfl rfl) (fun _ _ => other _ rfl rfl) (other _ rfl rfl)
    (fun _ _ => other _ rfl rfl) (fun _ _ => other _ rfl rfl)
    (by simp) (fun _ _ hx hrest => List.forall_mem_cons.2 ⟨hx, hrest⟩)
    (by simp) (fun _ _ hfield hrest => List.forall_mem_cons.2 ⟨hfield, hrest⟩)
    trivial (fun _ _ _ _ => trivial) (fun _ _ hv => hv) (fun _ _ _ _ => trivial) v

/-- To prove something that only looks at the fields of objects, prove it of objects from their fields. -/
theorem inductionOnFields {motive : Value → Prop}
    (object : ∀ tag fields, (∀ field ∈ fields, motive field.2) → motive (object tag fields))
    (other : ∀ v, v.isObject = false → motive v) (v : Value) : motive v :=
  induction (fun _ _ => other _ rfl) object (fun v _ hobject => other v hobject) v

theorem className?_isSome (v : Value) : v.className?.isSome = v.isComposite := by
  cases v <;> rfl

/-! ## Previews -/

/-- Texts up to this many characters are shown whole. -/
def maxTextPreview : Nat := 32

/-- How much of a longer text is shown. -/
def textPreviewHead : Nat := 29

/-- Numbers are positional from 1e-6 up to but not including 1e21, without a fraction of zero; of two equally
    close shortest forms the one away from zero is taken. -/
def numberStyle : DecimalStyle :=
  ⟨⟨1, -6⟩, ⟨1, 21⟩, false, .awayFromZero⟩

/-- The text of a number. The zeros differ in their sign. -/
def numberText (n : Binary64) : String :=
  if n.isNaN then "NaN"
  else if n.isInfinite then (if n.isNegative then "-Infinity" else "Infinity")
  else n.write numberStyle

/-- The preview of a text: the whole of a short one, else its head and its length. -/
def textPreview (s : String) : String :=
  if s.length ≤ maxTextPreview then "[string \"" ++ s ++ "\"]"
  else "[string \"" ++ String.ofList (s.toList.take textPreviewHead) ++ "...\" (" ++ toString s.length ++ ")]"

/-- The preview of a function. An empty name counts as none. -/
def functionPreview (name : Option String) : String :=
  let name := name.getD ""
  "[function " ++ (if name.isEmpty then "(anonymous)" else name) ++ "]"

def preview (v : Value) : String :=
  match v with
  | undefined => "[undefined]"
  | null => "[null]"
  | bool b => "[boolean " ++ (if b then "true" else "false") ++ "]"
  | number n => "[number " ++ numberText n ++ "]"
  | bigint n => "[bigint " ++ toString n ++ "]"
  | string s => textPreview s
  | symbol none => "[symbol]"
  | symbol (some description) => "[symbol (" ++ description ++ ")]"
  | array items => "[array (" ++ toString items.length ++ ")]"
  | function name _ => functionPreview name
  | v => "[object " ++ v.className?.getD "Object" ++ "]"

/-! ## JSON data as values -/

mutual

/-- The value that JSON data stands for. -/
def ofJson : Json → Value
  | .null => null
  | .bool b => bool b
  | .int n => number (.ofInt n)
  | .float x => number x
  | .string s => string s
  | .array items => array (itemsOfJson items)
  | .object members => ofFields none (fieldsOfJson members)

def itemsOfJson : List Json → List Value
  | [] => []
  | item :: rest => ofJson item :: itemsOfJson rest

def fieldsOfJson : List (String × Json) → List (String × Value)
  | [] => []
  | (name, item) :: rest => (name, ofJson item) :: fieldsOfJson rest

end

end Value

end Conform

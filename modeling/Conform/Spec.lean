import Conform.Outline
import Conform.Value
/- Specs: descriptions of what a value has to look like. A leaf names tests, several of them with bars in between; the
   other forms are built from specs, except that a predicate carries a test of its own. Every spec has a label, which
   stands for it in messages, and a depth. Operators combine specs; each has one keyword of its own and may have others
   that mean the same. -/
namespace Conform

/-! ## Operators -/

/-- A way to combine specs. -/
inductive Operator where
  /-- Every operand matches the value. -/
  | all
  /-- At least one operand matches the value. -/
  | any
  /-- No operand matches the value. -/
  | not
  /-- Each operand matches the element at its place in an array of as many elements. -/
  | tuple
  deriving DecidableEq, Repr

namespace Operator

/-- All keywords with what they mean. -/
def meanings : List (String × Operator) :=
  [("$all", all), ("$every", all), ("$and", all), ("$any", any), ("$some", any), ("$or", any),
   ("$not", not), ("$tuple", tuple)]

def keywords : List String :=
  meanings.map (·.1)

def ofKeyword? (keyword : String) : Option Operator :=
  (meanings.find? fun m => m.1 = keyword).map (·.2)

/-- The keyword under which an operator is written. -/
def keyword : Operator → String
  | all => "$all"
  | any => "$any"
  | not => "$not"
  | tuple => "$tuple"

def outline : Operator → Outline
  | all => .word "All"
  | any => .word "Any"
  | not => .word "Not"
  | tuple => .word "Tuple"

@[simp] theorem ofKeyword?_keyword (op : Operator) : ofKeyword? op.keyword = some op := by
  cases op <;> decide

theorem mem_keywords_iff {keyword : String} :
    keyword ∈ keywords ↔ (ofKeyword? keyword).isSome = true := by
  simp [keywords, ofKeyword?]

end Operator

/-! ## Specs -/

/-- A test of a value. -/
abbrev Test := Value → Bool

/-- What a value has to look like. -/
inductive Spec where
  /-- One of the named tests accepts the value. -/
  | leaf (name : String)
  /-- The value is an array and each element matches. -/
  | listOf (item : Spec)
  /-- An operator over specs. -/
  | operator (op : Operator) (operands : List Spec)
  /-- The value is an array of as many elements and each matches its operand. -/
  | tuple (operands : List Spec)
  /-- The value is a composite and each of the fields matches; other fields do not matter. -/
  | shape (fields : List (String × Spec))
  /-- The test accepts the value. -/
  | predicate (name : Option String) (test : Test)
  deriving Inhabited

namespace Spec

/-- An operator over specs, where tuples have a form of their own. -/
def combine : Operator → List Spec → Spec
  | .tuple, operands => tuple operands
  | op, operands => operator op operands

/-- A leaf that names several tests. -/
def union (names : List String) : Spec :=
  leaf ("|".intercalate names)

/-- The names in a leaf, without the blanks around them. -/
def leafNames (name : String) : List String :=
  (Text.split '|' name).map Text.trim

def isLeaf : Spec → Bool
  | leaf _ => true
  | _ => false

def isShape : Spec → Bool
  | shape _ => true
  | _ => false

mutual

/-- The number of specs on the longest way inwards, the spec itself included. -/
def depth : Spec → Nat
  | leaf _ | predicate _ _ => 1
  | listOf item => 1 + depth item
  | operator _ operands | tuple operands => 1 + greatestDepth operands
  | shape fields => 1 + greatestFieldDepth fields

def greatestDepth : List Spec → Nat
  | [] => 0
  | s :: rest => max (depth s) (greatestDepth rest)

def greatestFieldDepth : List (String × Spec) → Nat
  | [] => 0
  | (_, s) :: rest => max (depth s) (greatestFieldDepth rest)

end

mutual

/-- The names in all leaves, from left to right and from the outside inwards. -/
def names : Spec → List String
  | leaf name => leafNames name
  | predicate _ _ => []
  | listOf item => names item
  | operator _ operands | tuple operands => namesOfAll operands
  | shape fields => namesOfFields fields

def namesOfAll : List Spec → List String
  | [] => []
  | s :: rest => names s ++ namesOfAll rest

def namesOfFields : List (String × Spec) → List String
  | [] => []
  | (_, s) :: rest => names s ++ namesOfFields rest

end

/-- An operator with its operands as a label. -/
def callLabel (keyword : String) (operands : List String) : String :=
  keyword ++ "(" ++ ", ".intercalate operands ++ ")"

mutual

/-- What stands for the spec in messages. -/
def label : Spec → String
  | leaf name => name
  | listOf item => "[" ++ label item ++ "]"
  | operator op operands => callLabel op.keyword (labels operands)
  | tuple operands => callLabel Operator.tuple.keyword (labels operands)
  | shape fields => "\x7b" ++ ", ".intercalate (fieldLabels fields) ++ "\x7d"
  | predicate name _ => Value.functionPreview name

def labels : List Spec → List String
  | [] => []
  | s :: rest => label s :: labels rest

def fieldLabels : List (String × Spec) → List String
  | [] => []
  | (name, s) :: rest => (name ++ ": " ++ label s) :: fieldLabels rest

end

mutual

def outline : Spec → Outline
  | leaf name => .tagged "Leaf" [.quoted name]
  | listOf item => .tagged "Homogeneous" [outline item]
  | operator op operands =>
    .record "Operator" [("op", op.outline), ("operands", .list (outlines operands))] true
  | tuple operands => .tagged "Tuple" [.list (outlines operands)]
  | shape fields => .tagged "Shape" [.list (fieldOutlines fields)]
  | predicate name _ =>
    .tagged "Predicate" [.tagged "SpecPredicate" [.ofOption .quoted name]]

def outlines : List Spec → List Outline
  | [] => []
  | s :: rest => outline s :: outlines rest

def fieldOutlines : List (String × Spec) → List Outline
  | [] => []
  | (name, s) :: rest => .tagged "" [.quoted name, outline s] :: fieldOutlines rest

end

/-- To prove something of every spec, prove it of each form from the specs that it is built from. -/
@[induction_eliminator]
theorem induction {motive : Spec → Prop}
    (leaf : ∀ name, motive (leaf name))
    (listOf : ∀ item, motive item → motive (listOf item))
    (operator : ∀ op operands, (∀ s ∈ operands, motive s) → motive (operator op operands))
    (tuple : ∀ operands, (∀ s ∈ operands, motive s) → motive (tuple operands))
    (shape : ∀ fields, (∀ field ∈ fields, motive field.2) → motive (shape fields))
    (predicate : ∀ name test, motive (predicate name test)) (s : Spec) : motive s :=
  @Spec.rec motive (fun operands => ∀ s ∈ operands, motive s) (fun fields => ∀ field ∈ fields, motive field.2)
    (fun field => motive field.2)
    leaf listOf operator tuple shape predicate
    (by simp) (fun _ _ hs hrest => List.forall_mem_cons.2 ⟨hs, hrest⟩)
    (by simp) (fun _ _ hfield hrest => List.forall_mem_cons.2 ⟨hfield, hrest⟩) (fun _ _ hs => hs) s

theorem depth_le_greatestDepth {specs : List Spec} {s : Spec} (h : s ∈ specs) :
    s.depth ≤ greatestDepth specs := by
  induction specs with
  | nil => simp at h
  | cons t rest ih =>
    simp only [greatestDepth]
    rcases List.mem_cons.1 h with rfl | h
    · exact Nat.le_max_left _ _
    · exact Nat.le_trans (ih h) (Nat.le_max_right _ _)

theorem namesOfAll_eq (specs : List Spec) : namesOfAll specs = specs.flatMap names := by
  induction specs with
  | nil => rfl
  | cons s rest ih => simp [namesOfAll, ih]

theorem namesOfFields_eq (fields : List (String × Spec)) :
    namesOfFields fields = fields.flatMap fun field => names field.2 := by
  induction fields with
  | nil => rfl
  | cons field rest ih => simp [namesOfFields, ih]

end Spec

end Conform

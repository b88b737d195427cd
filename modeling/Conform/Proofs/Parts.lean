import Conform.Spec
import Conform.Proofs.Document
/- Specs as documents. The parts of a spec are the specs that it is built from, in the order in which they are written;
   they are less deep than the spec. The names in a spec are those of its leaves in the order in which the leaves are
   read, so the first name with a property stands in the first leaf that has such a name (`searches_find?_names`). -/
namespace Conform.Spec

/-- The specs that a spec is built from. -/
def parts : Spec → List Spec
  | leaf _ | predicate _ _ => []
  | listOf item => [item]
  | operator _ operands | tuple operands => operands
  | shape fields => fields.map (·.2)

def isPredicate : Spec → Bool
  | predicate _ _ => true
  | _ => false

/-- The names in the spec itself, not in its parts: those of a leaf. -/
def ownNames : Spec → List String
  | leaf name => leafNames name
  | _ => []

theorem greatestFieldDepth_eq (fields : List (String × Spec)) :
    greatestFieldDepth fields = greatestDepth (fields.map (·.2)) := by
  induction fields with
  | nil => rfl
  | cons field rest ih => rw [greatestFieldDepth, ih]; rfl

theorem depth_eq (s : Spec) : s.depth = 1 + greatestDepth s.parts := by
  cases s with
  | listOf item => rw [depth, parts, greatestDepth, greatestDepth, Nat.max_zero]
  | shape fields => rw [depth, greatestFieldDepth_eq, parts]
  | _ => rfl

theorem depth_lt_of_mem_parts {s t : Spec} (h : t ∈ s.parts) : t.depth < s.depth := by
  have hle := depth_le_greatestDepth h
  rw [depth_eq s]
  omega

/-- There is no way inwards without end. -/
theorem wellFounded_parts : WellFounded fun t s : Spec => t ∈ s.parts :=
  Subrelation.wf depth_lt_of_mem_parts (measure depth).wf

theorem names_eq (s : Spec) : s.names = s.ownNames ++ s.parts.flatMap names := by
  cases s with
  | leaf name => simp [names, ownNames, parts]
  | predicate name test => rfl
  | listOf item => simp [names, ownNames, parts]
  | operator op operands => simp [names, ownNames, parts, namesOfAll_eq]
  | tuple operands => simp [names, ownNames, parts, namesOfAll_eq]
  | shape fields => simp [names, ownNames, parts, namesOfFields_eq, List.flatMap_map]

theorem mem_names_of_mem_parts {s t : Spec} (h : t ∈ s.parts) {name : String} (hname : name ∈ t.names) :
    name ∈ s.names := by
  rw [names_eq s, List.mem_append, List.mem_flatMap]
  exact .inr ⟨t, h, hname⟩

/-- The search for a name with a property looks at a leaf where it is read. -/
theorem searches_find?_names (p : String → Bool) :
    Document.Searches parts (fun s => s.ownNames.find? p) (fun s => s.names.find? p) where
  bounded := wellFounded_parts
  step s := by rw [names_eq s, List.find?_append, List.find?_flatMap]

/-- No predicate stands anywhere in the spec. -/
def PredicateFree (s : Spec) : Prop :=
  ∀ pos t, Document.nodeAt? parts s pos = some t → t.isPredicate = false

theorem predicateFree_iff {s : Spec} :
    s.PredicateFree ↔ s.isPredicate = false ∧ ∀ t ∈ s.parts, t.PredicateFree :=
  Document.forall_nodeAt?_iff

@[simp] theorem predicateFree_leaf (name : String) : (leaf name).PredicateFree := by
  rw [predicateFree_iff]
  simp [isPredicate, parts]

@[simp] theorem predicateFree_tuple {operands : List Spec} :
    (tuple operands).PredicateFree ↔ ∀ t ∈ operands, t.PredicateFree := by
  rw [predicateFree_iff]
  simp [isPredicate, parts]

@[simp] theorem predicateFree_shape {fields : List (String × Spec)} :
    (shape fields).PredicateFree ↔ ∀ field ∈ fields, field.2.PredicateFree := by
  rw [predicateFree_iff, parts, List.forall_mem_map]
  exact and_iff_right rfl

end Conform.Spec

import Conform.Entries
import Conform.Spec
import Conform.Spec.Error
/- Registries: tests under names. A registry only grows by registration, and the last test registered under a name is
   the one that counts. `validate` is the check that comes before every use of a spec: its depth, then its names. -/
namespace Conform

/-- Tests under names, sorted by name. -/
structure Registry where
  entries : List (String × Test)
  sorted : Entries.Sorted entries

namespace Registry

def empty : Registry := ⟨[], Entries.sorted_nil⟩

/-- The registry with one more test; an earlier test of that name is replaced. -/
def register (r : Registry) (name : String) (test : Test) : Registry :=
  ⟨Entries.insert name test r.entries, Entries.sorted_insert r.sorted name test⟩

/-- The registry with the tests of a table, registered one after the other. -/
def extend (r : Registry) (table : List (String × Test)) : Registry :=
  ⟨Entries.insertAll table r.entries, Entries.sorted_insertAll r.sorted table⟩

def ofTable (table : List (String × Test)) : Registry :=
  empty.extend table

def find? (r : Registry) (name : String) : Option Test :=
  Entries.find? name r.entries

/-- What the test under a name says about a value. -/
def check (r : Registry) (name : String) (v : Value) : Option Bool :=
  (r.find? name).map fun test => test v

def contains (r : Registry) (name : String) : Bool :=
  (r.find? name).isSome

def names (r : Registry) : List String :=
  Entries.names r.entries

def size (r : Registry) : Nat :=
  r.entries.length

def isEmpty (r : Registry) : Bool :=
  r.entries.isEmpty

/-- The names of the tests that accept a value, in order. -/
def accepting (r : Registry) (v : Value) : List String :=
  (r.entries.filter fun entry => entry.2 v).map (·.1)

/-- The fault of a spec that uses a name without a test. -/
def unknown (r : Registry) (name : String) : SpecError :=
  .unknownType name r.names

/-- Specs may not be deeper than this. -/
def maxSpecDepth : Nat := 64

/-- What is wrong with a spec, if anything: that it is too deep, else the first name without a test. -/
def validate (r : Registry) (s : Spec) : Except SpecError Unit :=
  if maxSpecDepth < s.depth then .error (.depthExceeded s.depth maxSpecDepth)
  else match s.names.find? fun name => !r.contains name with
    | some name => .error (r.unknown name)
    | none => .ok ()

/-- The structure of a registry shows its names. -/
def outline (r : Registry) : Outline :=
  .record "Registry" [("names", .list (r.names.map .quoted))] true

theorem mem_names_iff {r : Registry} {name : String} : name ∈ r.names ↔ r.contains name = true :=
  Entries.isSome_find?_iff.symm

theorem pairwise_names (r : Registry) : r.names.Pairwise (· < ·) :=
  List.pairwise_map.2 r.sorted

@[simp] theorem find?_register_self (r : Registry) (name : String) (test : Test) :
    (r.register name test).find? name = some test :=
  Entries.find?_insert_self name test r.entries

theorem find?_register_of_ne (r : Registry) {name other : String} (h : other ≠ name) (test : Test) :
    (r.register name test).find? other = r.find? other :=
  Entries.find?_insert_of_ne h test r.entries

theorem extend_cons (r : Registry) (name : String) (test : Test) (table : List (String × Test)) :
    r.extend ((name, test) :: table) = (r.register name test).extend table := rfl

end Registry

end Conform

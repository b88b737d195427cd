import Mathlib.Data.List.Dedup
import Conform.Proofs.NamedTests
import Conform.Registry.Standard
/- What a registry holds after any steps of building it. Whether tests are registered one by one or by tables makes no
   difference: the steps come to one table with all entries in their order (`Start.build_eq_ofTable`). In it the last
   entry of a name is the one that counts (`find?_ofTable_eq_some_iff`), and the answers of the registry, its names and
   its size all tell of the same entries (`last_entry_counts`). -/
namespace Conform

namespace Entries
variable {β : Type}

/-- The value stands in the last entry with the name. -/
def LastUnder (name : String) (value : β) (entries : List (String × β)) : Prop :=
  ∃ before behind, entries = before ++ (name, value) :: behind ∧ name ∉ names behind

theorem names_reverse (entries : List (String × β)) : names entries.reverse = (names entries).reverse :=
  List.map_reverse

theorem find?_reverse_eq_some_iff {name : String} {value : β} {entries : List (String × β)} :
    find? name entries.reverse = some value ↔ LastUnder name value entries := by
  have hnames : ∀ part : List (String × β), name ∉ names part.reverse ↔ name ∉ names part := by
    intro part
    rw [names_reverse, List.mem_reverse]
  rw [find?_eq_some_iff]
  constructor
  · rintro ⟨before, behind, hentries, hbefore⟩
    refine ⟨behind.reverse, before.reverse, ?_, (hnames before).2 hbefore⟩
    rw [← List.reverse_reverse entries, hentries]
    simp
  · rintro ⟨before, behind, rfl, hbehind⟩
    exact ⟨behind.reverse, before.reverse, by simp, (hnames behind).2 hbehind⟩

theorem find?_reverse_eq_none_iff {name : String} {entries : List (String × β)} :
    find? name entries.reverse = none ↔ name ∉ names entries := by
  rw [← Option.not_isSome_iff_eq_none, isSome_find?_iff, names_reverse, List.mem_reverse]

end Entries

namespace Registry

/-! ## Tables -/

theorem extend_eq_foldl_register (r : Registry) (table : List (String × Test)) :
    r.extend table = table.foldl (fun r entry => r.register entry.1 entry.2) r := by
  induction table generalizing r with
  | nil => rfl
  | cons entry rest ih => rw [extend_cons, ih, List.foldl_cons]

theorem extend_append (r : Registry) (table table' : List (String × Test)) :
    r.extend (table ++ table') = (r.extend table).extend table' := by
  simp only [extend_eq_foldl_register, List.foldl_append]

theorem find?_ofTable (name : String) (table : List (String × Test)) :
    (ofTable table).find? name = Entries.find? name table.reverse := by
  rw [ofTable, empty, extend, find?, Entries.find?_insertAll, Entries.find?, Option.or_none]

theorem find?_ofTable_eq_some_iff {name : String} {test : Test} {table : List (String × Test)} :
    (ofTable table).find? name = some test ↔ Entries.LastUnder name test table := by
  rw [find?_ofTable, Entries.find?_reverse_eq_some_iff]

theorem find?_ofTable_eq_none_iff {name : String} {table : List (String × Test)} :
    (ofTable table).find? name = none ↔ name ∉ Entries.names table := by
  rw [find?_ofTable, Entries.find?_reverse_eq_none_iff]

theorem mem_names_ofTable {name : String} {table : List (String × Test)} :
    name ∈ (ofTable table).names ↔ name ∈ Entries.names table := by
  rw [mem_names_iff, contains, ← not_iff_not, Option.not_isSome_iff_eq_none, find?_ofTable_eq_none_iff]

theorem names_ofTable_perm (table : List (String × Test)) :
    (ofTable table).names.Perm (Entries.names table).dedup := by
  have hnodup : (ofTable table).names.Nodup := (pairwise_names _).imp fun h => String.ne_of_lt h
  refine (List.perm_ext_iff_of_nodup hnodup (List.nodup_dedup _)).2 fun name => ?_
  rw [mem_names_ofTable, List.mem_dedup]

/-! ## Steps of building -/

/-- Where building starts: from no tests or from the standard ones. -/
inductive Start where
  | empty
  | standard

def Start.registry : Start → Registry
  | empty => .empty
  | standard => .standard

def Start.entries : Start → List (String × Test)
  | empty => []
  | standard => standardTests

def Registration.entries : Registration → List (String × Test)
  | test name t => [(name, t)]
  | table entries => entries

def Start.build (start : Start) (steps : List Registration) : Registry :=
  steps.foldl add start.registry

/-- All entries that are registered at the start and by steps, in their order. -/
def Start.merged (start : Start) (steps : List Registration) : List (String × Test) :=
  start.entries ++ steps.flatMap Registration.entries

theorem add_eq_extend (r : Registry) (step : Registration) : r.add step = r.extend step.entries := by
  cases step <;> rfl

theorem foldl_add_eq_extend (r : Registry) (steps : List Registration) :
    steps.foldl add r = r.extend (steps.flatMap Registration.entries) := by
  induction steps generalizing r with
  | nil => rfl
  | cons step rest ih => rw [List.foldl_cons, ih, add_eq_extend, List.flatMap_cons, extend_append]

theorem Start.registry_eq_ofTable (start : Start) : start.registry = ofTable start.entries := by
  cases start <;> rfl

theorem Start.build_eq_ofTable (start : Start) (steps : List Registration) :
    start.build steps = ofTable (start.merged steps) := by
  rw [build, foldl_add_eq_extend, registry_eq_ofTable, merged, ofTable, ofTable, extend_append]

/-- All that the registry says about a name goes by this test, or by there being none. -/
structure Answers (r : Registry) (name : String) (test? : Option Test) : Prop where
  find : r.find? name = test?
  check : ∀ v, r.check name v = test?.map fun test => test v
  contains : r.contains name = test?.isSome
  names : name ∈ r.names ↔ test?.isSome = true

theorem Answers.of_find {r : Registry} {name : String} {test? : Option Test} (h : r.find? name = test?) :
    r.Answers name test? where
  find := h
  check v := by rw [Registry.check, h]
  contains := by rw [Registry.contains, h]
  names := by rw [mem_names_iff, Registry.contains, h]

/-- A registry that is built from nothing or from the standard tests, by any steps, holds of each name the test of its last
    entry, and nothing under a name without an entry. Its names increase and are those of the entries; its size counts
    them, without those that repeat. A table does what its entries do if they are registered one by one. -/
theorem last_entry_counts (start : Start) (steps : List Registration) :
    let r := start.build steps
    let entries := start.merged steps
    (∀ name, (∃ test, Entries.LastUnder name test entries ∧ r.Answers name (some test)) ∨
      (name ∉ Entries.names entries ∧ r.Answers name none)) ∧
    r.names.Pairwise (· < ·) ∧ (∀ name, name ∈ r.names ↔ name ∈ Entries.names entries) ∧
    r.size = r.names.length ∧ r.size = (Entries.names entries).dedup.length ∧
    (r.isEmpty = true ↔ r.names = []) ∧
    ∀ table, r.extend table = table.foldl (fun r entry => r.register entry.1 entry.2) r := by
  intro r entries
  have hr : r = ofTable entries := start.build_eq_ofTable steps
  have hsize : r.size = r.names.length := (List.length_map _).symm
  refine ⟨fun name => ?_, r.pairwise_names, fun name => ?_, hsize, ?_, ?_, r.extend_eq_foldl_register⟩
  · cases hfind : r.find? name with
    | some test =>
      refine .inl ⟨test, ?_, .of_find hfind⟩
      rwa [hr, find?_ofTable_eq_some_iff] at hfind
    | none =>
      refine .inr ⟨?_, .of_find hfind⟩
      rwa [hr, find?_ofTable_eq_none_iff] at hfind
  · rw [hr, mem_names_ofTable]
  · rw [hsize, hr, (names_ofTable_perm entries).length_eq]
  · rw [isEmpty, List.isEmpty_iff, Registry.names, Entries.names, List.map_eq_nil_iff]

end Registry

end Conform

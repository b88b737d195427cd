import Conform.Proofs.Dispatch
/- Asking for a test by its name. The name is read as a leaf, so bars part it and blanks at the ends of its parts do not
   count, while a registry holds a test under the name as it is. The two agree for a plain name, which is its own only
   part (`Spec.leafNames_of_isPlainName`). Any other name is none of its parts (`Spec.mem_leafNames_self_iff`): a test that
   is registered under it is not reached by it, and what is asked instead is whether one of the tests of the parts accepts
   the value (`named_tests_are_reached`). -/
namespace Conform

namespace Spec

/-- A leaf with this name names just this name: no bar stands in it, and no blank at its ends. -/
def IsPlainName (name : String) : Prop :=
  '|' ∉ name.toList ∧ Text.trim name = name

instance : DecidablePred IsPlainName := fun name =>
  inferInstanceAs (Decidable ('|' ∉ name.toList ∧ Text.trim name = name))

theorem leafNames_of_notMem {name : String} (h : '|' ∉ name.toList) : leafNames name = [Text.trim name] := by
  rw [leafNames, Text.split_of_notMem h, List.map_singleton]

theorem leafNames_of_isPlainName {name : String} (h : IsPlainName name) : leafNames name = [name] := by
  rw [leafNames_of_notMem h.1, h.2]

theorem leafNames_ne_nil (name : String) : leafNames name ≠ [] := by
  rw [leafNames, ne_eq, List.map_eq_nil_iff]
  exact Text.split_ne_nil '|' name

theorem notMem_of_mem_leafNames {name part : String} (h : part ∈ leafNames name) : '|' ∉ part.toList := by
  obtain ⟨piece, hpiece, rfl⟩ := List.mem_map.1 h
  obtain ⟨cs, hcs, rfl⟩ := List.mem_map.1 hpiece
  intro hbar
  rw [Text.trim, String.toList_ofList, String.toList_ofList] at hbar
  exact Text.not_mem_of_mem_splitChars hcs (Text.mem_of_mem_trimChars hbar)

/-- The plain names are those that are among their own parts. -/
theorem mem_leafNames_self_iff {name : String} : name ∈ leafNames name ↔ IsPlainName name := by
  constructor
  · intro h
    have hbar := notMem_of_mem_leafNames h
    rw [leafNames_of_notMem hbar, List.mem_singleton] at h
    exact ⟨hbar, h.symm⟩
  · intro h
    rw [leafNames_of_isPlainName h]
    exact List.mem_singleton.2 rfl

theorem accepts_leaf {name : String} (h : IsPlainName name) (r : Registry) (mode : Option Expansion) (nested : Bool)
    (v : Value) : (leaf name).accepts r mode nested v = decide (r.check name v = some true) := by
  rw [accepts, leafNames_of_isPlainName h, List.any_cons, List.any_nil, Bool.or_false]

theorem namesOfAll_leaves {names : List String} (h : ∀ name ∈ names, IsPlainName name) :
    namesOfAll (names.map leaf) = names := by
  induction names with
  | nil => rfl
  | cons name rest ih =>
    obtain ⟨hname, hrest⟩ := List.forall_mem_cons.1 h
    rw [List.map_cons, namesOfAll, Spec.names, leafNames_of_isPlainName hname, ih hrest, List.singleton_append]

theorem greatestDepth_leaves_le (names : List String) : greatestDepth (names.map leaf) ≤ 1 := by
  induction names with
  | nil => exact Nat.zero_le 1
  | cons name rest ih => exact Nat.max_le.2 ⟨Nat.le_refl 1, ih⟩

end Spec

/-! ## Registering tests -/

namespace Registry

/-- A step of building a registry: a test under a name, or the tests of a table. -/
inductive Registration where
  | test (name : String) (test : Test)
  | table (entries : List (String × Test))

def add (r : Registry) : Registration → Registry
  | .test name test => r.register name test
  | .table entries => r.extend entries

/-- The registry that is built by steps from the empty one. -/
def build (steps : List Registration) : Registry :=
  steps.foldl add empty

theorem contains_eq_isSome_check (r : Registry) (name : String) (v : Value) :
    r.contains name = (r.check name v).isSome := by
  rw [contains, check, Option.isSome_map]

theorem contains_register_empty {name other : String} (test : Test) :
    (empty.register name test).contains other = true ↔ other = name := by
  rw [contains]
  by_cases h : other = name
  · rw [h, find?_register_self]
    exact iff_of_true rfl rfl
  · rw [find?_register_of_ne empty h]
    exact iff_of_false Bool.false_ne_true h

/-- The first part of a name under which there is no test. -/
def unregisteredPart? (r : Registry) (name : String) : Option String :=
  (Spec.leafNames name).find? fun part => !r.contains part

theorem unregisteredPart?_eq_none_iff {r : Registry} {name : String} :
    r.unregisteredPart? name = none ↔ ∀ part ∈ Spec.leafNames name, r.contains part = true :=
  find?_unregistered_eq_none_iff (s := .leaf name)

theorem of_unregisteredPart? {r : Registry} {name part : String} (h : r.unregisteredPart? name = some part) :
    part ∈ Spec.leafNames name ∧ r.contains part = false :=
  ⟨List.mem_of_find?_eq_some h, by simpa using List.find?_some h⟩

theorem validate_leaf (r : Registry) (name : String) :
    r.validate (.leaf name) =
      match r.unregisteredPart? name with
      | some part => .error (r.unknown part)
      | none => .ok () := rfl

theorem validate_all_leaves (r : Registry) {names : List String} (h : ∀ name ∈ names, Spec.IsPlainName name) :
    r.validate (.operator .all (names.map .leaf)) =
      match names.find? fun name => !r.contains name with
      | some name => .error (r.unknown name)
      | none => .ok () := by
  have hnames : (Spec.operator .all (names.map .leaf)).names = names := Spec.namesOfAll_leaves h
  have hdepth : ¬maxSpecDepth < (Spec.operator .all (names.map .leaf)).depth := by
    have hle := Spec.greatestDepth_leaves_le names
    simp only [Spec.depth, maxSpecDepth]
    omega
  have hfind : ((Spec.operator .all (names.map .leaf)).names.find? fun name => !r.contains name) =
      names.find? fun name => !r.contains name := by rw [hnames]
  cases hmissing : names.find? fun name => !r.contains name <;> simp only [validate, if_neg hdepth, hfind, hmissing]

end Registry

namespace Matcher

/-- The first name whose test does not accept the value is what a conjunction of leaves with plain names fails at. -/
theorem firstFailure_all_leaves (m : Matcher) {names : List String} (h : ∀ name ∈ names, Spec.IsPlainName name)
    (v : Value) :
    m.firstFailure (.operator .all (names.map .leaf)) v =
      (names.find? fun name => m.registry.check name v ≠ some true).map fun name => ⟨false, .root, .leaf name, v⟩ := by
  show (Spec.operandOutcomes m.registry m.expansion false .root v (names.map .leaf)).find? (fun o => !o.passed) = _
  induction names with
  | nil => rfl
  | cons name rest ih =>
    obtain ⟨hname, hrest⟩ := List.forall_mem_cons.1 h
    rw [List.map_cons, Spec.operandOutcomes, Spec.outcomes, Spec.accepts_leaf hname, List.singleton_append,
      List.find?_cons, List.find?_cons, ih hrest]
    by_cases hcheck : m.registry.check name v = some true <;> simp [hcheck]

end Matcher

/-! ## What is found under a name -/

namespace Query
open Registry

theorem isNamed_eq (q : Query) (name : String) (v : Value) :
    q.isNamed name v =
      match q.matcher.registry.unregisteredPart? name with
      | some part => .error (q.matcher.registry.unknown part)
      | none => .ok ((Spec.leafNames name).any fun part => q.matcher.registry.check part v = some true) := by
  have hvalid := q.matcher.registry.validate_leaf name
  rw [isNamed]
  cases hpart : q.matcher.registry.unregisteredPart? name with
  | some part =>
    rw [hpart] at hvalid
    rw [is_eq, hvalid]
    rfl
  | none =>
    rw [hpart] at hvalid
    rw [is_eq_accepts q _ v hvalid]
    rfl

theorem isNamed_eq_ok_iff {q : Query} {name : String} {v : Value} {b : Bool} :
    q.isNamed name v = .ok b ↔
      (∀ part ∈ Spec.leafNames name, q.matcher.registry.contains part = true) ∧
        b = (Spec.leafNames name).any fun part => q.matcher.registry.check part v = some true := by
  rw [isNamed_eq, ← unregisteredPart?_eq_none_iff]
  cases q.matcher.registry.unregisteredPart? name with
  | some part =>
    constructor
    · intro h; cases h
    · intro h; cases h.1
  | none =>
    constructor
    · intro h; exact ⟨rfl, (Except.ok.inj h).symm⟩
    · intro h; rw [h.2]

theorem of_isNamed_eq_error {q : Query} {name : String} {v : Value} {e : SpecError}
    (h : q.isNamed name v = .error e) :
    ∃ part ∈ Spec.leafNames name, q.matcher.registry.contains part = false ∧
      e = .unknownType part q.matcher.registry.names := by
  rw [isNamed_eq] at h
  cases hpart : q.matcher.registry.unregisteredPart? name with
  | none => rw [hpart] at h; cases h
  | some part =>
    rw [hpart] at h
    cases h
    obtain ⟨hmem, hcontains⟩ := of_unregisteredPart? hpart
    exact ⟨part, hmem, hcontains, rfl⟩

theorem isNamed_of_isPlainName (q : Query) {name : String} (h : Spec.IsPlainName name) {v : Value} {b : Bool}
    (hcheck : q.matcher.registry.check name v = some b) : q.isNamed name v = .ok b := by
  have hcontains : q.matcher.registry.contains name = true := by
    rw [contains_eq_isSome_check _ name v, hcheck]
    rfl
  rw [isNamed_eq_ok_iff, Spec.leafNames_of_isPlainName h, List.forall_mem_singleton]
  refine ⟨hcontains, ?_⟩
  rw [List.any_cons, List.any_nil, hcheck]
  cases b <;> rfl

/-- A test under a name that is not plain is not reached by this name if it is the only one. -/
theorem isNamed_register_empty {name : String} (h : ¬Spec.IsPlainName name) (mode : Option Expansion) (test : Test)
    (v : Value) (b : Bool) : (Query.mk ⟨empty.register name test, mode⟩).isNamed name v ≠ .ok b := by
  intro hok
  have hparts := (isNamed_eq_ok_iff.1 hok).1
  obtain ⟨part, hpart⟩ := List.exists_mem_of_ne_nil _ (Spec.leafNames_ne_nil name)
  -- the part has a test, so it is the name itself
  have hname := (contains_register_empty test).1 (hparts part hpart)
  rw [hname] at hpart
  exact h (Spec.mem_leafNames_self_iff.1 hpart)

end Query

theorem Check.run_isNamed (c : Check) {name : String} (h : Spec.IsPlainName name) (v : Value) (description : String)
    (j : Journal) :
    (c.isNamed name v description).run j =
      match c.matcher.registry.check name v with
      | none => (.error (c.matcher.registry.unknown name),
          c.said j .error fun heading => errorMessage heading (c.matcher.registry.unknown name))
      | some true => (.ok true, j)
      | some false => (.ok false, c.said j .warn fun heading =>
          (Diagnostic.mk heading description name v.preview .root).message) := by
  have hcontains := Registry.contains_eq_isSome_check c.matcher.registry name v
  have hvalid := c.matcher.registry.validate_leaf name
  rw [Registry.unregisteredPart?, Spec.leafNames_of_isPlainName h] at hvalid
  have hfailure : c.matcher.firstFailure (.leaf name) v =
      [(⟨c.matcher.registry.check name v = some true, .root, .leaf name, v⟩ : Outcome)].find? fun o => !o.passed := by
    rw [Matcher.firstFailure, Matcher.outcomes, Spec.outcomes, Spec.accepts_leaf h]
  rw [isNamed, run_is, hvalid, hfailure]
  cases hcheck : c.matcher.registry.check name v with
  | none =>
    rw [hcheck] at hcontains
    simp [hcontains]
  | some b =>
    rw [hcheck] at hcontains
    cases b with
    | true => simp [hcontains]
    | false => simp [hcontains, Outcome.diagnostic, Spec.label]

/-- An assertion of a conjunction of leaves with plain names blames the first name without a test, and if there is none,
    the first whose test does not accept the value. -/
theorem Assertion.run_is_all_leaves (a : Assertion) {names : List String}
    (h : ∀ name ∈ names, Spec.IsPlainName name) (v : Value) (description : String) (j : Journal) :
    (a.is (.operator .all (names.map .leaf)) v description).run j =
      match names.find? fun name => !a.matcher.registry.contains name,
        names.find? fun name => a.matcher.registry.check name v ≠ some true with
      | some name, _ => (.error (.spec (a.matcher.registry.unknown name)), j)
      | none, none => (.ok (), j)
      | none, some name =>
        (.error (.assertion ⟨a.heading j.headings, description, name, v.preview, .root⟩), j.withHeading) := by
  rw [run_is, Registry.validate_all_leaves _ h, Matcher.firstFailure_all_leaves _ h]
  cases names.find? fun name => !a.matcher.registry.contains name with
  | some name => rfl
  | none => cases names.find? fun name => a.matcher.registry.check name v ≠ some true <;> rfl

/-- How a query for a name answers in every registry that was built by steps. Where all parts of the name have tests, the
    answer is whether one of these accepts the value; otherwise it is a fault that names a part without a test. This is
    what the registry says about the name for the plain names, and for no other: under any other name a test may be
    registered that the name does not reach. -/
theorem named_tests_are_reached (name : String) :
    (∀ (steps : List Registry.Registration) (mode : Option Expansion) (v : Value),
      let r := Registry.build steps
      let q : Query := ⟨⟨r, mode⟩⟩
      (∀ b, q.isNamed name v = .ok b ↔
        (∀ part ∈ Spec.leafNames name, r.contains part = true) ∧
          b = (Spec.leafNames name).any fun part => r.check part v = some true) ∧
      (∀ e, q.isNamed name v = .error e →
        ∃ part ∈ Spec.leafNames name, r.contains part = false ∧ e = .unknownType part r.names) ∧
      q.notNamed name v = (q.isNamed name v).map Bool.not) ∧
    ((∀ (steps : List Registry.Registration) (mode : Option Expansion) (v : Value),
      let r := Registry.build steps
      let q : Query := ⟨⟨r, mode⟩⟩
      r.contains name = true →
        ∃ b, r.check name v = some b ∧ q.isNamed name v = .ok b ∧ q.notNamed name v = .ok !b) ↔
      Spec.IsPlainName name) := by
  refine ⟨fun steps mode v => ⟨fun b => Query.isNamed_eq_ok_iff, fun e => Query.of_isNamed_eq_error, rfl⟩, ?_, ?_⟩
  · intro hreached
    refine Decidable.byContradiction fun hplain => ?_
    obtain ⟨b, -, hok, -⟩ := hreached [.test name fun _ => true] none .null ((Registry.contains_register_empty _).2 rfl)
    exact Query.isNamed_register_empty hplain none _ .null b hok
  · intro hplain steps mode v r q hname
    rw [Registry.contains_eq_isSome_check r name v] at hname
    obtain ⟨b, hcheck⟩ := Option.isSome_iff_exists.1 hname
    have hok : q.isNamed name v = .ok b := q.isNamed_of_isPlainName hplain hcheck
    refine ⟨b, hcheck, hok, ?_⟩
    show (q.isNamed name v).map Bool.not = .ok !b
    rw [hok]
    rfl

/-- A name with a bar in it names its parts, and one with a blank at its end is trimmed. In both cases the registered test
    accepts the value and the query ends with the fault that names what is left of the name. -/
theorem union_name_is_not_reached :
    let r := Registry.build [.test "a|b" fun _ => true, .table [("c ", Value.isNull)]]
    let q : Query := ⟨⟨r, none⟩⟩
    (r.contains "a|b" = true ∧ r.check "a|b" .null = some true ∧
      q.isNamed "a|b" .null = .error (.unknownType "a" ["a|b", "c "])) ∧
    (r.contains "c " = true ∧ r.check "c " .null = some true ∧
      q.isNamed "c " .null = .error (.unknownType "c" ["a|b", "c "])) := by
  intro r q
  exact ⟨⟨rfl, rfl, rfl⟩, rfl, rfl, rfl⟩

end Conform

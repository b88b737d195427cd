import Conform.Proofs.Exact
import Conform.Proofs.Merging
/- What the tests that are registered from the start say of a value together. The names have one test each, so that a test
   is found under its name (`check_standard`). Then it is the tests that have to be compared: the kinds exclude each other,
   and a kind whose values have a size is parted by it in one way, whatever the kind (`count_empty_nonEmpty`). The tests by
   size alone are put together from these kinds (`count_sizedKinds`). So the names are a classification, in which the parts
   of a whole never overlap and leave nothing out (`standard_tests_classify`). -/
namespace Conform

namespace Entries

theorem find?_eq_some_of_mem {β : Type} {name : String} {value : β} {t : List (String × β)} (hnames : (names t).Nodup)
    (h : (name, value) ∈ t) : find? name t = some value := by
  obtain ⟨before, behind, rfl⟩ := List.append_of_mem h
  refine find?_eq_some_iff.2 ⟨before, behind, rfl, fun hname => ?_⟩
  rw [names, List.map_append, List.nodup_append] at hnames
  exact hnames.2.2 name hname name List.mem_cons_self rfl

end Entries

namespace Registry

/-! ## Relations between tests -/

section
variable (r : Registry) (v : Value)

/-- There is a test under each of the names, and so many of these tests accept the value. -/
def Accepting (names : List String) (n : Nat) : Prop :=
  ∃ answers : List Bool, names.map (fun name => r.check name v) = answers.map some ∧ answers.count true = n

/-- If the test of the whole accepts the value, exactly one of the tests of the parts does, and otherwise none. -/
def Splits (whole : String) (parts : List String) : Prop :=
  ∃ answer : Bool, r.check whole v = some answer ∧ r.Accepting v parts answer.toNat

/-- If the one test accepts the value, so does the other one. -/
def Narrows (narrow wide : String) : Prop :=
  ∃ answer answer' : Bool, r.check narrow v = some answer ∧ r.check wide v = some answer' ∧
    (answer = true → answer' = true)

end

/-! ## Tests under their names -/

section
variable {table : List (String × Test)} (hnodup : (Entries.names table).Nodup)
include hnodup

theorem check_ofTable {entry : String × Test} (h : entry ∈ table) (v : Value) :
    (ofTable table).check entry.1 v = some (entry.2 v) := by
  have hreverse : (Entries.names table.reverse).Nodup := by
    rw [Entries.names_reverse, List.nodup_reverse]
    exact hnodup
  rw [check, find?_ofTable, Entries.find?_eq_some_of_mem hreverse (List.mem_reverse.2 h), Option.map_some]

theorem accepting_ofTable (entries : List (String × Test)) (h : entries ⊆ table) {v : Value} {n : Nat}
    (hcount : (entries.map fun entry => entry.2 v).count true = n) :
    (ofTable table).Accepting v (Entries.names entries) n := by
  refine ⟨entries.map fun entry => entry.2 v, ?_, hcount⟩
  rw [Entries.names, List.map_map, List.map_map]
  refine List.map_congr_left fun entry hentry => ?_
  rw [Function.comp, Function.comp, check_ofTable hnodup (h hentry)]

theorem splits_ofTable (whole : String × Test) (parts : List (String × Test)) (h : whole :: parts ⊆ table)
    {v : Value} (hcount : (parts.map fun entry => entry.2 v).count true = (whole.2 v).toNat) :
    (ofTable table).Splits v whole.1 (Entries.names parts) := by
  rw [List.cons_subset] at h
  exact ⟨whole.2 v, check_ofTable hnodup h.1 v, accepting_ofTable hnodup parts h.2 hcount⟩

end

theorem nodup_names_standardTests : (Entries.names standardTests).Nodup := by decide +kernel

theorem check_standard {entry : String × Test} (h : entry ∈ standardTests) (v : Value) :
    standard.check entry.1 v = some (entry.2 v) :=
  check_ofTable nodup_names_standardTests h v

theorem accepting_standard (entries : List (String × Test)) (h : entries ⊆ standardTests) {v : Value} {n : Nat}
    (hcount : (entries.map fun entry => entry.2 v).count true = n) :
    standard.Accepting v (Entries.names entries) n :=
  accepting_ofTable nodup_names_standardTests entries h hcount

theorem splits_standard (whole : String × Test) (parts : List (String × Test)) (h : whole :: parts ⊆ standardTests)
    {v : Value} (hcount : (parts.map fun entry => entry.2 v).count true = (whole.2 v).toNat) :
    standard.Splits v whole.1 (Entries.names parts) :=
  splits_ofTable nodup_names_standardTests whole parts h hcount

theorem narrows_standard (narrow wide : String × Test) (h : [narrow, wide] ⊆ standardTests) {v : Value}
    (himp : narrow.2 v = true → wide.2 v = true) : standard.Narrows v narrow.1 wide.1 := by
  rw [List.cons_subset, List.cons_subset] at h
  exact ⟨narrow.2 v, wide.2 v, check_standard h.1 v, check_standard h.2.1 v, himp⟩

/-! ## Kinds whose values have a size -/

def sizedKinds : List Test :=
  [ofKind ["string"], Value.isArray, Value.isPlain, ofKind ["set"], ofKind ["map"]]

/-- A value with a size is of one such kind, and a value without is of none. -/
theorem count_sizedKinds (v : Value) : (sizedKinds.map fun kind => kind v).count true = v.size?.isSome.toNat := by
  cases v with
  | object tag fields =>
    have hplain : (Value.object tag fields).isPlain = Value.isPlainTag tag := rfl
    rw [Value.size?]
    cases htag : Value.isPlainTag tag <;> simp [sizedKinds, ofKind, Value.kind, Value.isArray, hplain, htag]
  | _ => rfl

theorem isSome_size?_of_mem_sizedKinds {kind : Test} (hkind : kind ∈ sizedKinds) {v : Value} (h : kind v = true) :
    v.size?.isSome = true := by
  have hmem : true ∈ sizedKinds.map fun kind => kind v := List.mem_map.2 ⟨kind, hkind, h⟩
  have hpos := List.count_pos_iff.2 hmem
  rw [count_sizedKinds] at hpos
  cases hsize : v.size?.isSome with
  | true => rfl
  | false => simp [hsize] at hpos

theorem isSome_size?_of_onSize {p : Nat → Bool} {v : Value} (h : onSize p v = true) : v.size?.isSome = true := by
  obtain ⟨n, hn, -⟩ := (Option.any_eq_true _ _).1 h
  rw [hn, Option.isSome_some]

theorem count_sizedKinds_and (p : Nat → Bool) (v : Value) :
    (sizedKinds.map fun kind => kind v && onSize p v).count true = (onSize p v).toNat := by
  cases hsize : onSize p v with
  | false => simp only [Bool.and_false]; rfl
  | true => simp only [Bool.and_true, count_sizedKinds, isSome_size?_of_onSize hsize]

theorem count_empty_nonEmpty {kind : Test} (hkind : kind ∈ sizedKinds) (v : Value) :
    [kind v && onSize (· = 0) v, kind v && onSize (0 < ·) v].count true = (kind v).toNat := by
  cases h : kind v with
  | false => rfl
  | true =>
    obtain ⟨n, hn⟩ := Option.isSome_iff_exists.1 (isSome_size?_of_mem_sizedKinds hkind h)
    rw [onSize, onSize, hn]
    cases n <;> rfl

theorem onText_eq_onSize {test : String → Bool} {p : Nat → Bool} (h : ∀ s, test s = p s.length) (v : Value) :
    onText test v = (ofKind ["string"] v && onSize p v) := by
  cases v with
  | string s => exact h s
  | _ => rfl

theorem onItems_eq_onSize {test : List Value → Bool} {p : Nat → Bool} (h : ∀ items, test items = p items.length)
    (v : Value) : onItems test v = (v.isArray && onSize p v) := by
  cases v with
  | array items => exact h items
  | _ => rfl

theorem onText_isEmpty (v : Value) : onText String.isEmpty v = (ofKind ["string"] v && onSize (· = 0) v) :=
  onText_eq_onSize (fun s => by rw [Bool.eq_iff_iff, String.isEmpty_iff, decide_eq_true_eq, String.length_eq_zero_iff]) v

theorem onText_not_isEmpty (v : Value) :
    onText (fun s => !s.isEmpty) v = (ofKind ["string"] v && onSize (0 < ·) v) :=
  onText_eq_onSize (fun s => by rw [Bool.eq_iff_iff]; simp [Nat.pos_iff_ne_zero]) v

theorem onItems_isEmpty (v : Value) : onItems List.isEmpty v = (v.isArray && onSize (· = 0) v) :=
  onItems_eq_onSize (fun items => by cases items <;> rfl) v

theorem onItems_not_isEmpty (v : Value) :
    onItems (fun items => !items.isEmpty) v = (v.isArray && onSize (0 < ·) v) :=
  onItems_eq_onSize (fun items => by cases items <;> rfl) v

/-- The names of a kind whose values have a size: for all of them, for those that are empty and for the others. -/
structure SizedFamily where
  whole : String
  empty : String
  nonEmpty : String

/-- The kinds whose values have a size. -/
def sizedFamilies : List SizedFamily :=
  [⟨"string", "emptyString", "nonEmptyString"⟩,
   ⟨"array", "emptyArray", "nonEmptyArray"⟩,
   ⟨"plainObject", "emptyObject", "nonEmptyObject"⟩,
   ⟨"set", "emptySet", "nonEmptySet"⟩,
   ⟨"map", "emptyMap", "nonEmptyMap"⟩]

theorem splits_sized (family : SizedFamily) (kind empty nonEmpty : Test)
    (h : [(family.whole, kind), (family.empty, empty), (family.nonEmpty, nonEmpty)] ⊆ standardTests)
    (hkind : kind ∈ sizedKinds) (hempty : ∀ v, empty v = (kind v && onSize (· = 0) v))
    (hnonEmpty : ∀ v, nonEmpty v = (kind v && onSize (0 < ·) v)) (v : Value) :
    standard.Splits v family.whole [family.empty, family.nonEmpty] := by
  refine splits_standard (family.whole, kind) [(family.empty, empty), (family.nonEmpty, nonEmpty)] h ?_
  show [empty v, nonEmpty v].count true = (kind v).toNat
  rw [hempty, hnonEmpty, count_empty_nonEmpty hkind]

theorem splits_sizedFamilies (v : Value) :
    ∀ family ∈ sizedFamilies, standard.Splits v family.whole [family.empty, family.nonEmpty] := by
  simp only [sizedFamilies, List.forall_mem_cons]
  refine ⟨?_, ?_, ?_, ?_, ?_, nofun⟩
  · exact splits_sized ⟨"string", "emptyString", "nonEmptyString"⟩ (ofKind ["string"]) (onText String.isEmpty)
      (onText fun s => !s.isEmpty) (by simp [standardTests, primitiveTests]) (by simp [sizedKinds])
      onText_isEmpty onText_not_isEmpty v
  · exact splits_sized ⟨"array", "emptyArray", "nonEmptyArray"⟩ Value.isArray (onItems List.isEmpty)
      (onItems fun items => !items.isEmpty) (by simp [standardTests, sequenceTests]) (by simp [sizedKinds])
      onItems_isEmpty onItems_not_isEmpty v
  · exact splits_sized ⟨"plainObject", "emptyObject", "nonEmptyObject"⟩ Value.isPlain
      (fun v => v.isPlain && onSize (· = 0) v) (fun v => v.isPlain && onSize (0 < ·) v)
      (by simp [standardTests, compositeTests]) (by simp [sizedKinds]) (fun _ => rfl) (fun _ => rfl) v
  · exact splits_sized ⟨"set", "emptySet", "nonEmptySet"⟩ (ofKind ["set"]) (sizedKind "set" (· = 0))
      (sizedKind "set" (0 < ·)) (by simp [standardTests, compositeTests]) (by simp [sizedKinds])
      (fun _ => rfl) (fun _ => rfl) v
  · exact splits_sized ⟨"map", "emptyMap", "nonEmptyMap"⟩ (ofKind ["map"]) (sizedKind "map" (· = 0))
      (sizedKind "map" (0 < ·)) (by simp [standardTests, compositeTests]) (by simp [sizedKinds])
      (fun _ => rfl) (fun _ => rfl) v

theorem splits_empty (v : Value) : standard.Splits v "empty" (sizedFamilies.map (·.empty)) := by
  refine splits_standard ("empty", onSize (· = 0))
    [("emptyString", onText String.isEmpty), ("emptyArray", onItems List.isEmpty),
     ("emptyObject", fun v => v.isPlain && onSize (· = 0) v), ("emptySet", sizedKind "set" (· = 0)),
     ("emptyMap", sizedKind "map" (· = 0))]
    (by simp [standardTests, primitiveTests, sequenceTests, compositeTests, generalTests]) ?_
  rw [← count_sizedKinds_and]
  show [onText String.isEmpty v, onItems List.isEmpty v, _, _, _].count true = _
  rw [onText_isEmpty, onItems_isEmpty]
  rfl

theorem splits_nonEmpty (v : Value) : standard.Splits v "nonEmpty" (sizedFamilies.map (·.nonEmpty)) := by
  refine splits_standard ("nonEmpty", onSize (0 < ·))
    [("nonEmptyString", onText fun s => !s.isEmpty), ("nonEmptyArray", onItems fun items => !items.isEmpty),
     ("nonEmptyObject", fun v => v.isPlain && onSize (0 < ·) v), ("nonEmptySet", sizedKind "set" (0 < ·)),
     ("nonEmptyMap", sizedKind "map" (0 < ·))]
    (by simp [standardTests, primitiveTests, sequenceTests, compositeTests, generalTests]) ?_
  rw [← count_sizedKinds_and]
  show [onText (fun s => !s.isEmpty) v, onItems (fun items => !items.isEmpty) v, _, _, _].count true = _
  rw [onText_not_isEmpty, onItems_not_isEmpty]
  rfl

theorem splits_function (v : Value) : standard.Splits v "function" ["syncFunction", "asyncFunction"] := by
  have hsuffix : [("function", _), ("syncFunction", _), ("asyncFunction", _)] <:+ generalTests := ⟨[_, _, _, _], rfl⟩
  refine splits_standard ("function", _) [("syncFunction", _), ("asyncFunction", _)]
    (List.subset_append_of_subset_right _ hsuffix.subset) ?_
  cases v with
  | function name async => cases async <;> rfl
  | _ => rfl

/-! ## Numbers and numerals -/

theorem any_of_imp {α : Type} {test test' : α → Bool} (h : ∀ x, test x = true → test' x = true) {content : Option α}
    (hany : content.any test = true) : content.any test' = true := by
  obtain ⟨x, rfl, hx⟩ := (Option.any_eq_true _ _).1 hany
  exact h x hx

theorem not_isEmpty_of_isNumericText {s : String} (h : isNumericText s = true) : (!s.isEmpty) = true := by
  have hempty : isNumericText "" = false := by decide
  rw [Bool.not_eq_true', ← Bool.not_eq_true, String.isEmpty_iff]
  rintro rfl
  rw [hempty] at h
  cases h

theorem narrows_integer (v : Value) : standard.Narrows v "integer" "finite" := by
  refine narrows_standard ("integer", onNumber Binary64.isWhole) ("finite", onNumber Binary64.isFinite)
    (by simp [standardTests, primitiveTests]) (any_of_imp fun n h => ?_)
  exact (Bool.and_eq_true_iff.1 h).1

theorem narrows_finite (v : Value) : standard.Narrows v "finite" "number" := by
  refine narrows_standard ("finite", onNumber Binary64.isFinite) ("number", onNumber fun n => !n.isNaN)
    (by simp [standardTests, primitiveTests]) (any_of_imp fun n h => ?_)
  rw [Binary64.isNaN_eq_false_iff.2 (.inl h), Bool.not_false]

theorem narrows_numericString (v : Value) : standard.Narrows v "numericString" "nonEmptyString" :=
  narrows_standard ("numericString", onText isNumericText) ("nonEmptyString", onText fun s => !s.isEmpty)
    (by simp [standardTests, primitiveTests]) (any_of_imp fun _ => not_isEmpty_of_isNumericText)

/-- The standard tests classify all values. Primitives, arrays, composites and functions are the parts of everything.
    Every kind with a size is parted into its empty values and the others, and the tests for any empty value and for any
    other are put together from these parts. A value counts as true or as false, and is defined or not; there are two
    values that are nil, two sorts of functions and four kinds to iterate over. A whole number is finite, a finite one is
    a number, and a numeral is no empty text. -/
theorem standard_tests_classify (v : Value) :
    standard.Accepting v ["primitive", "array", "object", "function"] 1 ∧
    (∀ family ∈ sizedFamilies, standard.Splits v family.whole [family.empty, family.nonEmpty]) ∧
    standard.Splits v "empty" (sizedFamilies.map (·.empty)) ∧
    standard.Splits v "nonEmpty" (sizedFamilies.map (·.nonEmpty)) ∧
    standard.Accepting v ["truthy", "falsy"] 1 ∧
    standard.Accepting v ["defined", "undefined"] 1 ∧
    standard.Splits v "nil" ["null", "undefined"] ∧
    standard.Splits v "function" ["syncFunction", "asyncFunction"] ∧
    standard.Splits v "iterable" ["string", "array", "set", "map"] ∧
    standard.Narrows v "integer" "finite" ∧
    standard.Narrows v "finite" "number" ∧
    standard.Narrows v "numericString" "nonEmptyString" := by
  refine ⟨?_, splits_sizedFamilies v, splits_empty v, splits_nonEmpty v, ?_, ?_, ?_, splits_function v, ?_,
    narrows_integer v, narrows_finite v, narrows_numericString v⟩
  · exact accepting_standard [("primitive", Value.isPrimitive), ("array", Value.isArray), ("object", Value.isComposite),
      ("function", ofKind ["function"])]
      (by simp [standardTests, primitiveTests, sequenceTests, compositeTests, generalTests]) (by cases v <;> rfl)
  · exact accepting_standard [("truthy", fun v => !v.isFalsy), ("falsy", Value.isFalsy)]
      (by simp [standardTests, generalTests]) (by cases h : v.isFalsy <;> simp [h])
  · exact accepting_standard [("defined", fun v => !v.isUndefined), ("undefined", Value.isUndefined)]
      (by simp [standardTests, presenceTests]) (by cases v <;> rfl)
  · exact splits_standard ("nil", fun v => v.isNull || v.isUndefined)
      [("null", Value.isNull), ("undefined", Value.isUndefined)]
      (by simp [standardTests, presenceTests]) (by cases v <;> rfl)
  · exact splits_standard ("iterable", ofKind ["string", "array", "set", "map"])
      [("string", ofKind ["string"]), ("array", Value.isArray), ("set", ofKind ["set"]), ("map", ofKind ["map"])]
      (by simp [standardTests, primitiveTests, sequenceTests, compositeTests]) (by cases v <;> rfl)

end Registry

end Conform

import Conform.Registry.Standard
import Conform.Value
/- The surface of a value: what is seen of it without a look at its elements or fields. Of an array this is how many
   elements it has, of an object the class and whether there are fields; every other value is seen whole. The preview
   shows nothing but the surface, and the tests that are registered from the start look no further
   (`Registry.check_standard_eq`). -/
namespace Conform

/-- The values have the same surface. -/
inductive Value.SameSurface : Value → Value → Prop where
  | refl (v : Value) : SameSurface v v
  | array {items items' : List Value} (h : items.length = items'.length) : SameSurface (.array items) (.array items')
  | object {tag : Option String} {fields fields' : List (String × Value)} (h : fields = [] ↔ fields' = []) :
    SameSurface (.object tag fields) (.object tag fields')

namespace Value.SameSurface
variable {v w x : Value}

theorem trans (h : SameSurface v w) (h' : SameSurface w x) : SameSurface v x := by
  cases h with
  | refl => exact h'
  | array h =>
    cases h' with
    | refl => exact .array h
    | array h' => exact .array (h.trans h')
  | object h =>
    cases h' with
    | refl => exact .object h
    | object h' => exact .object (h.trans h')

theorem isComposite_eq (h : SameSurface v w) : v.isComposite = w.isComposite := by
  cases h <;> rfl

theorem preview_eq (h : SameSurface v w) : v.preview = w.preview := by
  cases h with
  | refl => rfl
  | array h => rw [preview, preview, h]
  | object h => rfl

end Value.SameSurface

/-! ## Tests that look at the surface alone -/

namespace Registry
open Value (SameSurface)

/-- The test does not look further than the surface. -/
def OnSurface (test : Test) : Prop :=
  ∀ v w, SameSurface v w → test v = test w

/-- A test that says the same of all arrays, and of all objects of one class, does not look further. -/
theorem onSurface_of_kinds {test : Test} (harray : ∀ items items', test (.array items) = test (.array items'))
    (hobject : ∀ tag fields fields', test (.object tag fields) = test (.object tag fields')) : OnSurface test := by
  intro v w h
  cases h with
  | refl => rfl
  | array => exact harray _ _
  | object => exact hobject _ _ _

theorem onSurface_ofKind (kinds : List String) : OnSurface (ofKind kinds) :=
  onSurface_of_kinds (fun _ _ => rfl) fun _ _ _ => rfl

theorem onSurface_onText (test : String → Bool) : OnSurface (onText test) :=
  onSurface_of_kinds (fun _ _ => rfl) fun _ _ _ => rfl

theorem onSurface_onNumber (test : Binary64 → Bool) : OnSurface (onNumber test) :=
  onSurface_of_kinds (fun _ _ => rfl) fun _ _ _ => rfl

theorem onSurface_onItems {test : List Value → Bool}
    (h : ∀ items items', items.length = items'.length → test items = test items') : OnSurface (onItems test) := by
  intro v w hvw
  cases hvw with
  | refl => rfl
  | array hlen => exact h _ _ hlen
  | object => rfl

/-- Of the size of an object no more is seen than whether it is zero. -/
theorem onSurface_onSize {test : Nat → Bool} (h : ∀ m n, test (m + 1) = test (n + 1)) : OnSurface (onSize test) := by
  intro v w hvw
  cases hvw with
  | refl => rfl
  | array hlen => rw [onSize, onSize, Value.size?, Value.size?, hlen]
  | @object tag fields fields' hfields =>
    rw [onSize, onSize, Value.size?, Value.size?]
    cases Value.isPlainTag tag with
    | false => rfl
    | true =>
      cases fields with
      | nil => rw [hfields.1 rfl]
      | cons field rest =>
        cases fields' with
        | nil => cases hfields.2 rfl
        | cons field' rest' => exact h _ _

theorem onSurface_and {test test' : Test} (h : OnSurface test) (h' : OnSurface test') :
    OnSurface fun v => test v && test' v := by
  intro v w hvw
  show (test v && test' v) = (test w && test' w)
  rw [h v w hvw, h' v w hvw]

/-! ## The tests that are registered from the start -/

theorem onSurface_empty : OnSurface (onSize (· = 0)) :=
  onSurface_onSize fun _ _ => rfl

theorem onSurface_nonEmpty : OnSurface (onSize (0 < ·)) :=
  onSurface_onSize fun m n => by simp

theorem onSurface_isPlain : OnSurface Value.isPlain :=
  onSurface_of_kinds (fun _ _ => rfl) fun _ _ _ => rfl

theorem onSurface_presenceTests : ∀ entry ∈ presenceTests, OnSurface entry.2 := by
  simp only [presenceTests, List.forall_mem_cons]
  refine ⟨?_, ?_, ?_, ?_, ?_, by simp⟩
  all_goals exact onSurface_of_kinds (fun _ _ => rfl) fun _ _ _ => rfl

theorem onSurface_primitiveTests : ∀ entry ∈ primitiveTests, OnSurface entry.2 := by
  simp only [primitiveTests, List.forall_mem_cons]
  refine ⟨onSurface_ofKind _, onSurface_onNumber _, onSurface_onNumber _, onSurface_onNumber _, onSurface_ofKind _,
    onSurface_ofKind _, onSurface_ofKind _, ?_, onSurface_onText _, onSurface_onText _, onSurface_onText _, by simp⟩
  exact onSurface_of_kinds (fun _ _ => rfl) fun _ _ _ => rfl

theorem onSurface_sequenceTests : ∀ entry ∈ sequenceTests, OnSurface entry.2 := by
  have hempty : ∀ items items' : List Value, items.length = items'.length → items.isEmpty = items'.isEmpty := by
    intro items items' hlen
    rw [Bool.eq_iff_iff, List.isEmpty_iff_length_eq_zero, List.isEmpty_iff_length_eq_zero, hlen]
  simp only [sequenceTests, List.forall_mem_cons]
  refine ⟨?_, onSurface_onItems hempty, onSurface_onItems ?_, onSurface_ofKind _, by simp⟩
  · exact onSurface_of_kinds (fun _ _ => rfl) fun _ _ _ => rfl
  · exact fun items items' hlen => congrArg Bool.not (hempty items items' hlen)

theorem onSurface_compositeTests : ∀ entry ∈ compositeTests, OnSurface entry.2 := by
  simp only [compositeTests, List.forall_mem_cons]
  refine ⟨?_, onSurface_isPlain, onSurface_and onSurface_isPlain onSurface_empty,
    onSurface_and onSurface_isPlain onSurface_nonEmpty, onSurface_ofKind _, onSurface_ofKind _, onSurface_ofKind _,
    onSurface_ofKind _, onSurface_and (onSurface_ofKind _) onSurface_empty,
    onSurface_and (onSurface_ofKind _) onSurface_nonEmpty, onSurface_ofKind _,
    onSurface_and (onSurface_ofKind _) onSurface_empty, onSurface_and (onSurface_ofKind _) onSurface_nonEmpty,
    by simp⟩
  exact onSurface_of_kinds (fun _ _ => rfl) fun _ _ _ => rfl

theorem onSurface_generalTests : ∀ entry ∈ generalTests, OnSurface entry.2 := by
  simp only [generalTests, List.forall_mem_cons]
  refine ⟨onSurface_empty, onSurface_nonEmpty, ?_, ?_, onSurface_ofKind _, ?_, ?_, by simp⟩
  all_goals exact onSurface_of_kinds (fun _ _ => rfl) fun _ _ _ => rfl

theorem onSurface_standardTests : ∀ entry ∈ standardTests, OnSurface entry.2 := by
  simp only [standardTests, List.forall_mem_append]
  exact ⟨⟨⟨⟨onSurface_presenceTests, onSurface_primitiveTests⟩, onSurface_sequenceTests⟩, onSurface_compositeTests⟩,
    onSurface_generalTests⟩

theorem check_ofTable_eq {table : List (String × Test)} (h : ∀ entry ∈ table, OnSurface entry.2) {v w : Value}
    (hvw : SameSurface v w) (name : String) : (ofTable table).check name v = (ofTable table).check name w := by
  rw [check, check]
  cases hfind : (ofTable table).find? name with
  | none => rfl
  | some test =>
    have htest : (name, test) ∈ table := by
      rcases Entries.mem_of_mem_insertAll (Entries.mem_of_find? hfind) with hmem | hmem
      · exact hmem
      · cases hmem
    exact congrArg some (h _ htest v w hvw)

theorem check_standard_eq {v w : Value} (h : SameSurface v w) (name : String) :
    standard.check name v = standard.check name w :=
  check_ofTable_eq onSurface_standardTests h name

end Registry

end Conform

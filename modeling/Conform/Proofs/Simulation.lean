import Mathlib.Data.List.Forall2
import Conform.Dispatch
import Conform.Proofs.Meaning
import Conform.Proofs.Parts
/- Values that specs cannot tell apart. `Simulation` lists what two values must have in common, seen through two ways
   to expand them: the answers of the registered tests, elements and fields that are alike again. Then every spec whose
   predicates do not tell alike values apart makes the same tests of both, with the same results
   (`Simulation.indistinct`), so it accepts both or neither. -/
namespace Conform

/-- The outcomes are of one test, made of alike values with the same result. -/
structure Outcome.Matched (Alike : Value → Value → Prop) (o o' : Outcome) : Prop where
  passed : o.passed = o'.passed
  path : o.path = o'.path
  spec : o.spec = o'.spec
  value : Alike o.value o'.value

namespace Spec

/-- Alike values stay alike on the way that a walk takes into them. The first value is expanded by the first mode and
    the second by the second one; `Flags` relates whether the walks stand below a shape. -/
structure Simulation (r : Registry) (mode mode' : Option Expansion) (Flags : Bool → Bool → Prop)
    (Alike : Value → Value → Prop) : Prop where
  below : Flags true true
  check : ∀ v w, Alike v w → ∀ name, r.check name v = r.check name w
  items : ∀ v w, Alike v w → (v.items? = none ∧ w.items? = none) ∨
    ∃ items items', v.items? = some items ∧ w.items? = some items' ∧ List.Forall₂ Alike items items'
  isComposite : ∀ v w, Alike v w → v.isComposite = w.isComposite
  field : ∀ nested nested' v w, Flags nested nested' → Alike v w → v.isComposite = true → ∀ key,
    Alike ((Expansion.apply (Expansion.atShape mode nested) v).fieldOrUndefined key)
      ((Expansion.apply (Expansion.atShape mode' nested') w).fieldOrUndefined key)

/-- The predicates in the spec do not tell alike values apart. -/
def Respects (Alike : Value → Value → Prop) (s : Spec) : Prop :=
  ∀ pos name test, Document.nodeAt? parts s pos = some (predicate name test) → ∀ v w, Alike v w → test v = test w

theorem Respects.of_mem_parts {Alike : Value → Value → Prop} {s t : Spec} (h : s.Respects Alike)
    (ht : t ∈ s.parts) : t.Respects Alike := by
  intro pos name test hpos
  obtain ⟨i, hi⟩ := List.mem_iff_getElem?.1 ht
  exact h (i :: pos) name test (Document.nodeAt?_cons_eq_some_iff.2 ⟨t, hi, hpos⟩)

theorem PredicateFree.respects {s : Spec} (h : s.PredicateFree) (Alike : Value → Value → Prop) : s.Respects Alike := by
  intro pos name test hpos
  have hfree := h pos _ hpos
  cases hfree

theorem respects_eq (s : Spec) : s.Respects Eq := by
  rintro pos name test _ v _ rfl
  rfl

/-- A value is as good as itself where both walks expand it in the same way. -/
theorem Simulation.ofSameExpansion {r : Registry} {mode mode' : Option Expansion} {Flags : Bool → Bool → Prop}
    (below : Flags true true)
    (h : ∀ nested nested', Flags nested nested' → Expansion.atShape mode nested = Expansion.atShape mode' nested') :
    Simulation r mode mode' Flags Eq where
  below := below
  check := by rintro v _ rfl name; rfl
  items := by
    rintro v _ rfl
    cases hitems : v.items? with
    | none => exact .inl ⟨rfl, rfl⟩
    | some items => exact .inr ⟨items, items, rfl, rfl, List.forall₂_same.2 fun x _ => rfl⟩
  isComposite := by rintro v _ rfl; rfl
  field := by
    rintro nested nested' v _ hflags rfl _ key
    rw [h nested nested' hflags]

namespace Simulation
variable {r : Registry} {mode mode' : Option Expansion} {Flags : Bool → Bool → Prop} {Alike : Value → Value → Prop}

/-- The spec makes the same tests of alike values, with the same results. -/
def Indistinct (r : Registry) (mode mode' : Option Expansion) (Flags : Bool → Bool → Prop)
    (Alike : Value → Value → Prop) (s : Spec) : Prop :=
  ∀ nested nested' p v w, Flags nested nested' → Alike v w →
    List.Forall₂ (Outcome.Matched Alike) (outcomes r mode nested p s v) (outcomes r mode' nested' p s w)

theorem all_passed_eq {outs outs' : List Outcome} (h : List.Forall₂ (Outcome.Matched Alike) outs outs') :
    outs.all Outcome.passed = outs'.all Outcome.passed := by
  induction h with
  | nil => rfl
  | cons ho _ ih => rw [List.all_cons, List.all_cons, ho.passed, ih]

theorem map_step_eq (hpreview : ∀ v w, Alike v w → v.preview = w.preview) {outs outs' : List Outcome}
    (h : List.Forall₂ (Outcome.Matched Alike) outs outs') : outs.map Outcome.step = outs'.map Outcome.step := by
  induction h with
  | nil => rfl
  | cons ho _ ih =>
    rw [List.map_cons, List.map_cons, ih, Outcome.step, Outcome.step, ho.passed, ho.path, ho.spec,
      hpreview _ _ ho.value]

theorem Indistinct.accepts_eq {s : Spec} (h : Indistinct r mode mode' Flags Alike s) {nested nested' : Bool}
    {v w : Value} (hflags : Flags nested nested') (halike : Alike v w) :
    accepts r mode nested s v = accepts r mode' nested' s w := by
  rw [← all_passed_outcomes s nested .root v, ← all_passed_outcomes s nested' .root w,
    all_passed_eq (h nested nested' .root v w hflags halike)]

theorem someAccepts_eq {operands : List Spec} (h : ∀ s ∈ operands, Indistinct r mode mode' Flags Alike s)
    {nested nested' : Bool} {v w : Value} (hflags : Flags nested nested') (halike : Alike v w) :
    someAccepts r mode nested v operands = someAccepts r mode' nested' w operands := by
  induction operands with
  | nil => rfl
  | cons s rest ih =>
    obtain ⟨hs, hrest⟩ := List.forall_mem_cons.1 h
    rw [someAccepts, someAccepts, hs.accepts_eq hflags halike, ih hrest]

theorem matched_operands {operands : List Spec} (h : ∀ s ∈ operands, Indistinct r mode mode' Flags Alike s)
    {nested nested' : Bool} (p : Path) {v w : Value} (hflags : Flags nested nested') (halike : Alike v w) :
    List.Forall₂ (Outcome.Matched Alike) (operandOutcomes r mode nested p v operands)
      (operandOutcomes r mode' nested' p w operands) := by
  induction operands with
  | nil => exact .nil
  | cons s rest ih =>
    obtain ⟨hs, hrest⟩ := List.forall_mem_cons.1 h
    exact List.rel_append (hs nested nested' p v w hflags halike) (ih hrest)

theorem matched_elements {operands : List Spec} (h : ∀ s ∈ operands, Indistinct r mode mode' Flags Alike s)
    {nested nested' : Bool} (p : Path) (start : Nat) {items items' : List Value} (hflags : Flags nested nested')
    (halike : List.Forall₂ Alike items items') :
    List.Forall₂ (Outcome.Matched Alike) (elementOutcomes r mode nested p start operands items)
      (elementOutcomes r mode' nested' p start operands items') := by
  induction operands generalizing start items items' with
  | nil => exact .nil
  | cons s rest ih =>
    obtain ⟨hs, hrest⟩ := List.forall_mem_cons.1 h
    cases halike with
    | nil => exact .nil
    | cons hv hvalues =>
      exact List.rel_append (hs nested nested' (p.index start) _ _ hflags hv) (ih hrest (start + 1) hvalues)

theorem matched_items {f g : Nat → Value → List Outcome}
    (h : ∀ i v w, Alike v w → List.Forall₂ (Outcome.Matched Alike) (f i v) (g i w)) {items items' : List Value}
    (halike : List.Forall₂ Alike items items') :
    List.Forall₂ (Outcome.Matched Alike) (items.mapIdx f).flatten (items'.mapIdx g).flatten := by
  induction halike generalizing f g with
  | nil => exact .nil
  | cons hv _ ih =>
    rw [List.mapIdx_cons, List.mapIdx_cons, List.flatten_cons, List.flatten_cons]
    exact List.rel_append (h 0 _ _ hv) (ih fun i => h (i + 1))

theorem matched_fields (h : Simulation r mode mode' Flags Alike) {fields : List (String × Spec)}
    (hfields : ∀ field ∈ fields, Indistinct r mode mode' Flags Alike field.2) (p : Path) {target target' : Value}
    (halike : ∀ key, Alike (target.fieldOrUndefined key) (target'.fieldOrUndefined key)) :
    List.Forall₂ (Outcome.Matched Alike) (fieldOutcomes r mode p target fields)
      (fieldOutcomes r mode' p target' fields) := by
  induction fields with
  | nil => exact .nil
  | cons field rest ih =>
    obtain ⟨hfield, hrest⟩ := List.forall_mem_cons.1 hfields
    exact List.rel_append (hfield true true (p.key field.1) _ _ h.below (halike field.1)) (ih hrest)

theorem matched_singleton {v w : Value} (halike : Alike v w) {a b : Bool} (hpassed : a = b) (p : Path) (s : Spec) :
    List.Forall₂ (Outcome.Matched Alike) [⟨a, p, s, v⟩] [⟨b, p, s, w⟩] :=
  .cons ⟨hpassed, rfl, rfl, halike⟩ .nil

theorem indistinct_tuple (h : Simulation r mode mode' Flags Alike) {s : Spec} {operands : List Spec}
    (hs : s = tuple operands ∨ s = operator .tuple operands)
    (ih : ∀ t ∈ operands, Indistinct r mode mode' Flags Alike t) : Indistinct r mode mode' Flags Alike s := by
  rcases hs with rfl | rfl
  all_goals
    intro nested nested' p v w hflags halike
    rcases h.items v w halike with ⟨hv, hw⟩ | ⟨items, items', hv, hw, hitems⟩
    · simp only [outcomes, hv, hw]
      exact matched_singleton halike rfl p _
    · simp only [outcomes, hv, hw, hitems.length_eq]
      by_cases hlen : items'.length = operands.length
      · simp only [if_pos hlen]
        exact matched_elements ih p 0 hflags hitems
      · simp only [if_neg hlen]
        exact matched_singleton halike rfl p _

/-- A spec does not tell alike values apart, unless a predicate in it does. -/
theorem indistinct (h : Simulation r mode mode' Flags Alike) {s : Spec} (hs : s.Respects Alike) :
    Indistinct r mode mode' Flags Alike s := by
  induction s with
  | leaf name =>
    intro nested nested' p v w hflags halike
    refine matched_singleton halike ?_ p _
    simp only [accepts, h.check v w halike]
  | predicate name test =>
    intro nested nested' p v w hflags halike
    refine matched_singleton halike ?_ p _
    simp only [accepts]
    exact hs [] name test rfl v w halike
  | listOf item ih =>
    intro nested nested' p v w hflags halike
    have ih := ih (hs.of_mem_parts (List.mem_singleton.2 rfl))
    rcases h.items v w halike with ⟨hv, hw⟩ | ⟨items, items', hv, hw, hitems⟩
    · simp only [outcomes, hv, hw]
      exact matched_singleton halike rfl p _
    · simp only [outcomes, hv, hw]
      exact matched_items (fun i x y hxy => ih nested nested' (p.index i) x y hflags hxy) hitems
  | operator op operands ih =>
    have ih : ∀ t ∈ operands, Indistinct r mode mode' Flags Alike t := fun t ht => ih t ht (hs.of_mem_parts ht)
    cases op with
    | all => exact fun nested nested' p v w hflags halike => matched_operands ih p hflags halike
    | any =>
      -- a probe shows in nothing but its result, so it is enough that the operands accept the same
      intro nested nested' p v w hflags halike
      refine matched_singleton halike ?_ p _
      simp only [accepts]
      exact someAccepts_eq ih hflags halike
    | not =>
      intro nested nested' p v w hflags halike
      refine matched_singleton halike ?_ p _
      simp only [accepts, someAccepts_eq ih hflags halike]
    | tuple => exact h.indistinct_tuple (.inr rfl) ih
  | tuple operands ih => exact h.indistinct_tuple (.inl rfl) fun t ht => ih t ht (hs.of_mem_parts ht)
  | shape fields ih =>
    intro nested nested' p v w hflags halike
    have ih : ∀ field ∈ fields, Indistinct r mode mode' Flags Alike field.2 :=
      fun field hfield => ih field hfield (hs.of_mem_parts (List.mem_map_of_mem hfield))
    -- this is the only place where values are expanded and where walks come to stand below a shape
    simp only [outcomes, ← h.isComposite v w halike]
    cases hcomposite : v.isComposite with
    | false => exact matched_singleton halike rfl p _
    | true => exact h.matched_fields ih p (h.field nested nested' v w hflags halike hcomposite)

end Simulation

end Spec

end Conform

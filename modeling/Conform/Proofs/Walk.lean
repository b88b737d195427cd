import Conform.Proofs.Walker
import Conform.Proofs.Meaning
/- A walk of a spec whose names are known reports the outcomes of the spec, one after the other until one is answered
   with `false`, and does nothing else (`walk_eq_reportAll`). This holds for every way to answer, so the walks of
   queries, assertions, checks and traces differ in their answers alone. The probes inside `$any` and `$not` are walks
   that are answered silently: by the same statement they end with whether the operand accepts the value, and leave
   no report behind.

   A registry knows a spec when it has a test under every name in it; the valid specs are the known ones that are not too
   deep (`Registry.validate_eq_ok_iff`). Among known names no lookup fails. -/
namespace Conform

/-! ## Known names -/

namespace Registry

/-- There is a test under every name in the spec. -/
def Knows (r : Registry) (s : Spec) : Prop :=
  ∀ name ∈ s.names, r.contains name = true

variable {r : Registry}

theorem knows_listOf {item : Spec} : r.Knows (.listOf item) ↔ r.Knows item := Iff.rfl

theorem knows_operator {op : Operator} {operands : List Spec} :
    r.Knows (.operator op operands) ↔ ∀ s ∈ operands, r.Knows s := by
  simp only [Knows, Spec.names, Spec.namesOfAll_eq, List.forall_mem_flatMap]

theorem knows_tuple {operands : List Spec} :
    r.Knows (.tuple operands) ↔ ∀ s ∈ operands, r.Knows s := by
  simp only [Knows, Spec.names, Spec.namesOfAll_eq, List.forall_mem_flatMap]

theorem knows_shape {fields : List (String × Spec)} :
    r.Knows (.shape fields) ↔ ∀ field ∈ fields, r.Knows field.2 := by
  simp only [Knows, Spec.names, Spec.namesOfFields_eq, List.forall_mem_flatMap]

theorem find?_unregistered_eq_none_iff {s : Spec} :
    (s.names.find? fun name => !r.contains name) = none ↔ r.Knows s := by
  rw [List.find?_eq_none]
  exact forall₂_congr fun name _ => by simp

theorem validate_eq_ok_iff {s : Spec} :
    r.validate s = .ok () ↔ s.depth ≤ maxSpecDepth ∧ r.Knows s := by
  unfold validate
  by_cases hdepth : maxSpecDepth < s.depth
  · rw [if_pos hdepth]
    constructor
    · intro h; cases h
    · intro h; omega
  · have hle : s.depth ≤ maxSpecDepth := by omega
    rw [if_neg hdepth, ← find?_unregistered_eq_none_iff]
    cases s.names.find? fun name => !r.contains name with
    | none => exact ⟨fun _ => ⟨hle, rfl⟩, fun _ => rfl⟩
    | some name =>
      constructor
      · intro h; cases h
      · intro h; cases h.2

/-- The search among known names ends with whether one of their tests accepts the value. -/
theorem namedTestAccepts_eq {names : List String} (h : ∀ name ∈ names, r.contains name = true) (v : Value) :
    Spec.namedTestAccepts r v names = .ok (names.any fun name => r.check name v = some true) := by
  induction names with
  | nil => rfl
  | cons name rest ih =>
    obtain ⟨hname, hrest⟩ := List.forall_mem_cons.1 h
    obtain ⟨test, htest⟩ := Option.isSome_iff_exists.1 hname
    have ih := ih hrest
    simp only [Spec.namedTestAccepts, htest, ih, List.any_cons, check, Option.map_some]
    -- the first test that accepts ends the search, so the rest counts only if it does not
    cases test v <;> simp

end Registry

namespace Spec

/-! ## Reports of a list of outcomes -/

section
variable {ε σ : Type} (report : Report ε σ)

/-- Reports outcomes one after the other up to the first that is answered with `false`. -/
def reportAll (outs : List Outcome) : Walk ε σ Bool :=
  conjunction (outs.map report)

theorem reportAll_singleton (o : Outcome) : reportAll report [o] = report o := by
  have h : (fun goOn : Bool => if goOn = true then pure true else pure false) = (pure : Bool → Walk ε σ Bool) := by
    funext goOn; cases goOn <;> rfl
  show (report o >>= fun goOn : Bool => if goOn = true then pure true else pure false) = report o
  rw [h, bind_pure]

theorem reportAll_append (as bs : List Outcome) :
    reportAll report (as ++ bs) = do
      if ← reportAll report as then reportAll report bs else return false := by
  induction as with
  | nil => simp [reportAll, conjunction]
  | cons o rest ih =>
    simp only [reportAll, List.cons_append, List.map_cons, conjunction, bind_assoc] at ih ⊢
    refine bind_congr fun goOn => ?_
    cases goOn with
    | false => simp
    | true => exact ih

theorem reportAll_cons (o : Outcome) (rest : List Outcome) :
    reportAll report (o :: rest) = do
      if ← report o then reportAll report rest else return false := rfl

theorem conjunction_mapIdx_reportAll (f : Nat → Value → List Outcome) (items : List Value) :
    conjunction (items.mapIdx fun i x => reportAll report (f i x)) = reportAll report (items.mapIdx f).flatten := by
  induction items generalizing f with
  | nil => rfl
  | cons x rest ih =>
    rw [List.mapIdx_cons, List.mapIdx_cons, List.flatten_cons, reportAll_append, conjunction, ih fun i => f (i + 1)]

/-- Silent reports end with whether all outcomes passed. -/
theorem reportAll_quietly (outs : List Outcome) :
    reportAll (quietly : Report ε σ) outs = pure (outs.all Outcome.passed) := by
  induction outs with
  | nil => rfl
  | cons o rest ih =>
    rw [reportAll_cons, ih, quietly, pure_bind, List.all_cons]
    cases o.passed <;> rfl

/-- A walk with this answer goes on after a test that passed and ends at one that failed, with `false` or with a
    fault. -/
structure StopsAtFailure (report : Report ε σ) : Prop where
  goes_on : ∀ o, o.passed = true → report o = pure true
  stops : ∀ o, o.passed = false → ∀ rest : Walk ε σ Bool, (do if ← report o then rest else return false) = report o

/-- All that is left of the reports then is the report of the first outcome that failed. -/
theorem StopsAtFailure.reportAll_eq {report : Report ε σ} (h : StopsAtFailure report) (outs : List Outcome) :
    reportAll report outs = (outs.find? fun o => !o.passed).elim (pure true) report := by
  induction outs with
  | nil => rfl
  | cons o rest ih =>
    rw [reportAll_cons, List.find?_cons]
    cases hpassed : o.passed with
    | false => exact h.stops o hpassed (reportAll report rest)
    | true =>
      rw [h.goes_on o hpassed, pure_bind]
      exact ih

end

/-! ## A walk reports the outcomes of its spec -/

section
variable {r : Registry} {mode : Option Expansion}

/-- A walk of the spec reports its outcomes, wherever it starts and however it is answered. -/
def Reports (r : Registry) (mode : Option Expansion) (s : Spec) : Prop :=
  ∀ (ε σ : Type) [OfSpecError ε] (report : Report ε σ) nested p v,
    walkAt r report (Expansion.atShape mode nested) p s v = reportAll report (outcomes r mode nested p s v)

variable {ε σ : Type} [OfSpecError ε]

theorem walkAllAt_eq_reportAll {operands : List Spec} (h : ∀ s ∈ operands, Reports r mode s) (report : Report ε σ)
    (nested : Bool) (p : Path) (v : Value) :
    walkAllAt r report (Expansion.atShape mode nested) p v operands =
      reportAll report (operandOutcomes r mode nested p v operands) := by
  induction operands with
  | nil => rfl
  | cons s rest ih =>
    obtain ⟨hs, hrest⟩ := List.forall_mem_cons.1 h
    rw [walkAllAt, operandOutcomes, reportAll_append, hs, ih hrest]

theorem walkEachAt_eq_reportAll {operands : List Spec} (h : ∀ s ∈ operands, Reports r mode s) (report : Report ε σ)
    (nested : Bool) (p : Path) (start : Nat) (items : List Value) :
    walkEachAt r report (Expansion.atShape mode nested) p start operands items =
      reportAll report (elementOutcomes r mode nested p start operands items) := by
  induction operands generalizing start items with
  | nil => rfl
  | cons s rest ih =>
    obtain ⟨hs, hrest⟩ := List.forall_mem_cons.1 h
    cases items with
    | nil => rfl
    | cons v values => rw [walkEachAt, elementOutcomes, reportAll_append, hs, ih hrest]

theorem walkFieldsAt_eq_reportAll {fields : List (String × Spec)} (h : ∀ field ∈ fields, Reports r mode field.2)
    (report : Report ε σ) (p : Path) (target : Value) :
    walkFieldsAt r report (Expansion.atShape mode true) p target fields =
      reportAll report (fieldOutcomes r mode p target fields) := by
  induction fields with
  | nil => rfl
  | cons field rest ih =>
    obtain ⟨hfield, hrest⟩ := List.forall_mem_cons.1 h
    rw [walkFieldsAt, fieldOutcomes, reportAll_append, hfield, ih hrest]

/-- A probe of operands reports nothing and ends with whether one of them accepts the value. -/
theorem someOperandHoldsAt_eq_pure {operands : List Spec} (h : ∀ s ∈ operands, Reports r mode s) (nested : Bool)
    (p : Path) (v : Value) :
    (someOperandHoldsAt r (Expansion.atShape mode nested) p v operands : Walk ε σ Bool) =
      pure (someAccepts r mode nested v operands) := by
  induction operands with
  | nil => rfl
  | cons s rest ih =>
    obtain ⟨hs, hrest⟩ := List.forall_mem_cons.1 h
    -- the operand is walked silently, so nothing of its walk is left but whether all its outcomes passed
    rw [someOperandHoldsAt, someAccepts, hs, reportAll_quietly, all_passed_outcomes, Walk.aside_pure, pure_bind, ih hrest]
    cases accepts r mode nested s v <;> rfl

theorem reports_tuple {s : Spec} {operands : List Spec} (hs : s = tuple operands ∨ s = operator .tuple operands)
    (h : ∀ t ∈ operands, Reports r mode t) : Reports r mode s := by
  rcases hs with rfl | rfl
  all_goals
    intro ε σ _ report nested p v
    simp only [walkAt, outcomes]
    cases v.items? with
    | none => exact (reportAll_singleton report _).symm
    | some items =>
      by_cases hlen : items.length = operands.length
      · simp only [if_pos hlen]
        exact walkEachAt_eq_reportAll h report nested p 0 items
      · simp only [if_neg hlen]
        exact (reportAll_singleton report _).symm

theorem reports_of_knows {s : Spec} (h : r.Knows s) : Reports r mode s := by
  induction s with
  | leaf name =>
    intro ε σ _ report nested p v
    have hnames : ∀ n ∈ leafNames name, r.contains n = true := h
    rw [walkAt, Registry.namedTestAccepts_eq hnames, outcomes, reportAll_singleton, accepts]
    rfl
  | predicate name test =>
    intro ε σ _ report nested p v
    rw [walkAt, outcomes, reportAll_singleton, accepts]
  | listOf item ih =>
    intro ε σ _ report nested p v
    have ih := ih (Registry.knows_listOf.1 h) ε σ report nested
    simp only [walkAt, outcomes]
    cases v.items? with
    | none => exact (reportAll_singleton report _).symm
    | some items =>
      simp only [ih]
      exact conjunction_mapIdx_reportAll report (fun i x => outcomes r mode nested (p.index i) item x) items
  | operator op operands ih =>
    have ih : ∀ s ∈ operands, Reports r mode s := fun s hs => ih s hs (Registry.knows_operator.1 h s hs)
    cases op with
    | all => exact fun ε σ _ report nested p v => walkAllAt_eq_reportAll ih report nested p v
    | any =>
      intro ε σ _ report nested p v
      rw [walkAt, someOperandHoldsAt_eq_pure ih, pure_bind, outcomes, reportAll_singleton, accepts]
    | not =>
      intro ε σ _ report nested p v
      rw [walkAt, someOperandHoldsAt_eq_pure ih, pure_bind, outcomes, reportAll_singleton, accepts]
    | tuple => exact reports_tuple (.inr rfl) ih
  | tuple operands ih =>
    exact reports_tuple (.inl rfl) fun s hs => ih s hs (Registry.knows_tuple.1 h s hs)
  | shape fields ih =>
    intro ε σ _ report nested p v
    have ih : ∀ field ∈ fields, Reports r mode field.2 :=
      fun field hfield => ih field hfield (Registry.knows_shape.1 h field hfield)
    simp only [walkAt, outcomes]
    cases v.isComposite with
    | false => exact (reportAll_singleton report _).symm
    | true =>
      -- the fields are walked with what the shape left of the expansion
      simp only [if_pos]
      rw [Expansion.below_atShape, walkFieldsAt_eq_reportAll ih]

/-- A walk of a spec whose names are known reports the outcomes of the spec. -/
theorem walk_eq_reportAll {s : Spec} (h : r.Knows s) (report : Report ε σ) (nested : Bool) (p : Path) (v : Value) :
    s.walk r report mode nested p v = reportAll report (outcomes r mode nested p s v) := by
  rw [walk_eq_walkAt]
  exact reports_of_knows h ε σ report nested p v

end

end Spec

end Conform

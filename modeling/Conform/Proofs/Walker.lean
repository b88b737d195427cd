import Conform.Walk
/- Walkers come back as they set out. However an action of a walker ends, also with a fault, the path and the flag are
   what they were before, and what the action does to the rest of the state depends on path and flag as it would on
   two arguments. `Scoped` says so of an action; it holds of each thing that walkers do and is kept when actions follow
   one another, so it holds of walking (`scoped_walk`). Walking is therefore the recursion `Spec.walkAt`, in which place
   and mode are handed inwards and nothing has to be put back (`Spec.walk_eq_walkAt`). -/
namespace Conform

namespace Expansion

/-- What is left to do for the shapes below a shape: a shallow expansion is done once. -/
def below : Option Expansion → Option Expansion
  | some .shallow => none
  | mode => mode

theorem below_atShape (mode : Option Expansion) (nested : Bool) :
    below (atShape mode nested) = atShape mode true := by
  rcases mode with _ | _ | _ <;> cases nested <;> rfl

end Expansion

/-- The answer of an action that has no state of its own. -/
def Walk.aside {ε σ α : Type} (action : Walk ε Unit α) : Walk ε σ α :=
  ExceptT.mk (pure (action.run.run ()).1)

theorem Walk.aside_pure {ε σ α : Type} (a : α) : Walk.aside (pure a : Walk ε Unit α) = (pure a : Walk ε σ α) := rfl

/-! ## Walking with place and mode as arguments -/

namespace Spec

section
variable {ε : Type} [OfSpecError ε]

mutual

/-- Lays a spec over a value at a place. The mode is what the next shape does. -/
def walkAt {σ : Type} (r : Registry) (report : Report ε σ) (mode : Option Expansion) (p : Path) (s : Spec)
    (v : Value) : Walk ε σ Bool :=
  match s with
  | leaf name => do
    let passed ← Walk.demand (namedTestAccepts r v (leafNames name))
    report ⟨passed, p, s, v⟩
  | predicate _ test => report ⟨test v, p, s, v⟩
  | listOf item =>
    match v.items? with
    | none => report ⟨false, p, s, v⟩
    | some items => conjunction (items.mapIdx fun i x => walkAt r report mode (p.index i) item x)
  | operator op operands =>
    match op with
    | .all => walkAllAt r report mode p v operands
    | .any => do
      let passed ← someOperandHoldsAt r mode p v operands
      report ⟨passed, p, s, v⟩
    | .not => do
      let failed ← someOperandHoldsAt r mode p v operands
      report ⟨!failed, p, s, v⟩
    | .tuple =>
      match v.items? with
      | none => report ⟨false, p, s, v⟩
      | some items =>
        if items.length = operands.length then walkEachAt r report mode p 0 operands items
        else report ⟨false, p, s, v⟩
  | tuple operands =>
    match v.items? with
    | none => report ⟨false, p, s, v⟩
    | some items =>
      if items.length = operands.length then walkEachAt r report mode p 0 operands items
      else report ⟨false, p, s, v⟩
  | shape fields =>
    if v.isComposite then
      walkFieldsAt r report (Expansion.below mode) p (Expansion.apply mode v) fields
    else report ⟨false, p, s, v⟩
termination_by structural s

def walkAllAt {σ : Type} (r : Registry) (report : Report ε σ) (mode : Option Expansion) (p : Path) (v : Value)
    (operands : List Spec) : Walk ε σ Bool :=
  match operands with
  | [] => pure true
  | s :: rest => do
    if ← walkAt r report mode p s v then walkAllAt r report mode p v rest else return false
termination_by structural operands

/-- Nothing is reported of the operands, so no state takes part in trying them. -/
def someOperandHoldsAt {σ : Type} (r : Registry) (mode : Option Expansion) (p : Path) (v : Value)
    (operands : List Spec) : Walk ε σ Bool :=
  match operands with
  | [] => pure false
  | s :: rest => do
    if ← Walk.aside (walkAt r quietly mode p s v) then return true else someOperandHoldsAt r mode p v rest
termination_by structural operands

def walkEachAt {σ : Type} (r : Registry) (report : Report ε σ) (mode : Option Expansion) (p : Path) (start : Nat)
    (operands : List Spec) (items : List Value) : Walk ε σ Bool :=
  match operands, items with
  | s :: rest, v :: values => do
    if ← walkAt r report mode (p.index start) s v then
      walkEachAt r report mode p (start + 1) rest values
    else return false
  | _, _ => pure true
termination_by structural operands

def walkFieldsAt {σ : Type} (r : Registry) (report : Report ε σ) (mode : Option Expansion) (p : Path)
    (target : Value) (fields : List (String × Spec)) : Walk ε σ Bool :=
  match fields with
  | [] => pure true
  | (name, s) :: rest => do
    if ← walkAt r report mode (p.key name) s (target.fieldOrUndefined name) then
      walkFieldsAt r report mode p target rest
    else return false
termination_by structural fields

end

end

end Spec

/-! ## Actions that put back what they change -/

namespace Walk
variable {ε σ α β : Type} {action : Walk ε σ α} {state after : σ}

theorem run_bind_ok {a : α} (h : action.run.run state = (.ok a, after)) (k : α → Walk ε σ β) :
    (action >>= k).run.run state = (k a).run.run after := by
  rw [ExceptT.run_bind, StateT.run_bind, h]
  rfl

theorem run_bind_error {e : ε} (h : action.run.run state = (.error e, after)) (k : α → Walk ε σ β) :
    (action >>= k).run.run state = (.error e, after) := by
  rw [ExceptT.run_bind, StateT.run_bind, h]
  rfl

end Walk

namespace Walker
variable {ε σ α β : Type}

theorem run_within (step : Segment) (action : Walk ε (Walker σ) α) (w : Walker σ) :
    (within step action).run.run w =
      let result := action.run.run { w with path := w.path.push step }
      (result.1, { result.2 with path := result.2.path.parent }) := rfl

theorem run_belowShape (action : Walk ε (Walker σ) α) (w : Walker σ) :
    (belowShape action).run.run w =
      let result := action.run.run { w with expanded := true }
      (result.1, { result.2 with expanded := w.expanded }) := rfl

theorem run_probe (action : Walk ε (Walker Unit) α) (w : Walker σ) :
    (probe action).run.run w = ((action.run.run ⟨w.path, w.expanded, ()⟩).1, w) := rfl

/-- The action ends as the other one does that is given flag and path, and leaves both as they were. -/
def Scoped (action : Walk ε (Walker σ) α) (f : Bool → Path → Walk ε σ α) : Prop :=
  ∀ w : Walker σ, action.run.run w =
    (((f w.expanded w.path).run.run w.state).1, { w with state := ((f w.expanded w.path).run.run w.state).2 })

section
variable {action : Walk ε (Walker σ) α} {f : Bool → Path → Walk ε σ α}

theorem Scoped.path_eq (h : Scoped action f) (w : Walker σ) : (action.run.run w).2.path = w.path := by
  rw [h w]

theorem Scoped.expanded_eq (h : Scoped action f) (w : Walker σ) : (action.run.run w).2.expanded = w.expanded := by
  rw [h w]

theorem scoped_pure (a : α) : Scoped (pure a : Walk ε (Walker σ) α) fun _ _ => pure a :=
  fun _ => rfl

theorem scoped_demand [OfSpecError ε] (answer : Except SpecError α) :
    Scoped (Walk.demand answer : Walk ε (Walker σ) α) fun _ _ => Walk.demand answer := by
  intro w
  cases answer <;> rfl

theorem scoped_tell (report : Report ε σ) (passed : Bool) (s : Spec) (v : Value) :
    Scoped (tell report passed s v) fun _ p => report ⟨passed, p, s, v⟩ :=
  fun _ => rfl

/-- What follows starts from the path and the flag that the first action started from. -/
theorem Scoped.bind (h : Scoped action f) {k : α → Walk ε (Walker σ) β} {g : α → Bool → Path → Walk ε σ β}
    (hk : ∀ a, Scoped (k a) (g a)) : Scoped (action >>= k) fun nested p => f nested p >>= fun a => g a nested p := by
  intro w
  have hrun := h w
  cases hf : (f w.expanded w.path).run.run w.state with
  | mk answer after =>
    rw [hf] at hrun
    cases answer with
    | ok a => rw [Walk.run_bind_ok hrun, Walk.run_bind_ok hf, hk a]
    | error e => rw [Walk.run_bind_error hrun, Walk.run_bind_error hf]

theorem scoped_get {k : Walker σ → Walk ε (Walker σ) β} {g : Bool → Bool → Path → Walk ε σ β}
    (hk : ∀ w : Walker σ, Scoped (k w) (g w.expanded)) :
    Scoped (get >>= k) fun nested p => g nested nested p :=
  fun w => hk w w

/-- A step inwards is taken back, whatever the answer of the action. -/
theorem Scoped.within (h : Scoped action f) (step : Segment) :
    Scoped (within step action) fun nested p => f nested (p.push step) := by
  intro w
  rw [run_within, h]
  simp only [Path.parent_push]

theorem Scoped.belowShape (h : Scoped action f) : Scoped (belowShape action) fun _ p => f true p := by
  intro w
  rw [run_belowShape, h]

/-- A probe starts from the path and the flag of the walker, and leaves the walker as it was. -/
theorem Scoped.probe {action : Walk ε (Walker Unit) α} {f : Bool → Path → Walk ε Unit α} (h : Scoped action f) :
    Scoped (probe action : Walk ε (Walker σ) α) fun nested p => (f nested p).aside := by
  intro w
  rw [run_probe, h]
  rfl

theorem Scoped.ite {action₁ action₂ : Walk ε (Walker σ) α} {f₁ f₂ : Bool → Path → Walk ε σ α} {c : Prop} [Decidable c]
    (h₁ : Scoped action₁ f₁) (h₂ : Scoped action₂ f₂) :
    Scoped (if c then action₁ else action₂) fun nested p => if c then f₁ nested p else f₂ nested p := by
  by_cases hc : c
  · simpa only [if_pos hc] using h₁
  · simpa only [if_neg hc] using h₂

/-- Actions that put back what they change can be done one after the other. -/
theorem scoped_conjunction_mapIdx {items : List Value} {action : Nat → Value → Walk ε (Walker σ) Bool}
    {f : Nat → Value → Bool → Path → Walk ε σ Bool} (h : ∀ i x, Scoped (action i x) (f i x)) :
    Scoped (Spec.conjunction (items.mapIdx action)) fun nested p =>
      Spec.conjunction (items.mapIdx fun i x => f i x nested p) := by
  induction items generalizing action f with
  | nil => exact scoped_pure true
  | cons x rest ih =>
    simp only [List.mapIdx_cons, Spec.conjunction]
    exact (h 0 x).bind fun goOn => (ih fun i y => h (i + 1) y).ite (scoped_pure false)

end

/-! ## Walking -/

section
variable {ε : Type} [OfSpecError ε] {r : Registry} {mode : Option Expansion}

/-- Walking the spec is walking it with place and mode as arguments, whoever asks and however the reports are
    answered. -/
def WalksScoped (ε : Type) [OfSpecError ε] (r : Registry) (mode : Option Expansion) (s : Spec) : Prop :=
  ∀ (σ : Type) (report : Report ε σ) (v : Value), Scoped (walk r report mode s v) fun nested p =>
    s.walkAt r report (Expansion.atShape mode nested) p v

variable {σ : Type}

theorem scoped_walkAll {operands : List Spec} (h : ∀ s ∈ operands, WalksScoped ε r mode s) (report : Report ε σ)
    (v : Value) : Scoped (walkAll r report mode v operands) fun nested p =>
      Spec.walkAllAt r report (Expansion.atShape mode nested) p v operands := by
  induction operands with
  | nil => exact scoped_pure true
  | cons s rest ih =>
    obtain ⟨hs, hrest⟩ := List.forall_mem_cons.1 h
    exact (hs σ report v).bind fun goOn => (ih hrest).ite (scoped_pure false)

theorem scoped_someOperandHolds {operands : List Spec} (h : ∀ s ∈ operands, WalksScoped ε r mode s) (v : Value) :
    Scoped (someOperandHolds r mode v operands : Walk ε (Walker σ) Bool) fun nested p =>
      Spec.someOperandHoldsAt r (Expansion.atShape mode nested) p v operands := by
  induction operands with
  | nil => exact scoped_pure false
  | cons s rest ih =>
    obtain ⟨hs, hrest⟩ := List.forall_mem_cons.1 h
    exact (hs Unit Spec.quietly v).probe.bind fun found => (scoped_pure true).ite (ih hrest)

theorem scoped_walkEach {operands : List Spec} (h : ∀ s ∈ operands, WalksScoped ε r mode s) (report : Report ε σ)
    (start : Nat) (items : List Value) : Scoped (walkEach r report mode start operands items) fun nested p =>
      Spec.walkEachAt r report (Expansion.atShape mode nested) p start operands items := by
  induction operands generalizing start items with
  | nil => exact scoped_pure true
  | cons s rest ih =>
    obtain ⟨hs, hrest⟩ := List.forall_mem_cons.1 h
    cases items with
    | nil => exact scoped_pure true
    | cons v values =>
      exact ((hs σ report v).within (.index start)).bind fun goOn => (ih hrest (start + 1) values).ite (scoped_pure false)

theorem scoped_walkFields {fields : List (String × Spec)} (h : ∀ field ∈ fields, WalksScoped ε r mode field.2)
    (report : Report ε σ) (target : Value) : Scoped (walkFields r report mode target fields) fun nested p =>
      Spec.walkFieldsAt r report (Expansion.atShape mode nested) p target fields := by
  induction fields with
  | nil => exact scoped_pure true
  | cons field rest ih =>
    obtain ⟨hfield, hrest⟩ := List.forall_mem_cons.1 h
    exact ((hfield σ report _).within (.key field.1)).bind fun goOn => (ih hrest).ite (scoped_pure false)

theorem walksScoped_tuple {s : Spec} {operands : List Spec} (hs : s = .tuple operands ∨ s = .operator .tuple operands)
    (h : ∀ t ∈ operands, WalksScoped ε r mode t) : WalksScoped ε r mode s := by
  intro σ report v
  rcases hs with rfl | rfl
  all_goals
    simp only [walk, Spec.walkAt]
    cases v.items? with
    | none => exact scoped_tell report false _ v
    | some items => exact (scoped_walkEach h report 0 items).ite (scoped_tell report false _ v)

theorem scoped_walk (s : Spec) : WalksScoped ε r mode s := by
  induction s with
  | leaf name =>
    intro σ report v
    exact (scoped_demand _).bind fun passed => scoped_tell report passed _ v
  | predicate name test =>
    intro σ report v
    exact scoped_tell report (test v) _ v
  | listOf item ih =>
    intro σ report v
    simp only [walk, Spec.walkAt]
    cases v.items? with
    | none => exact scoped_tell report false _ v
    | some items => exact scoped_conjunction_mapIdx fun i x => (ih σ report x).within (.index i)
  | operator op operands ih =>
    cases op with
    | all => exact fun σ report v => scoped_walkAll ih report v
    | any =>
      intro σ report v
      exact (scoped_someOperandHolds ih v).bind fun passed => scoped_tell report passed _ v
    | not =>
      intro σ report v
      exact (scoped_someOperandHolds ih v).bind fun failed => scoped_tell report (!failed) _ v
    | tuple => exact walksScoped_tuple (.inr rfl) ih
  | tuple operands ih => exact walksScoped_tuple (.inl rfl) ih
  | shape fields ih =>
    intro σ report v
    simp only [walk, Spec.walkAt, Expansion.below_atShape]
    have hfields : ∀ target, Scoped (belowShape (walkFields r report mode target fields)) fun _ p =>
        Spec.walkFieldsAt r report (Expansion.atShape mode true) p target fields :=
      fun target => (scoped_walkFields ih report target).belowShape
    -- the flag says what the shape expands, before it is set for the fields
    refine .ite (scoped_get (g := fun flag _ p => Spec.walkFieldsAt r report (Expansion.atShape mode true) p
      (Expansion.apply (Expansion.atShape mode flag) v) fields) fun w => hfields _) (scoped_tell report false _ v)

/-- However a walk ends, the walker stands where it stood before and the flag is what it was. -/
theorem walk_frame (report : Report ε σ) (s : Spec) (v : Value) (w : Walker σ) :
    ((walk r report mode s v).run.run w).2.path = w.path ∧
      ((walk r report mode s v).run.run w).2.expanded = w.expanded :=
  have hscoped : WalksScoped ε r mode s := scoped_walk s
  ⟨(hscoped σ report v).path_eq w, (hscoped σ report v).expanded_eq w⟩

end

end Walker

namespace Spec
variable {ε σ : Type} [OfSpecError ε] (r : Registry) (report : Report ε σ) (mode : Option Expansion)

theorem run_walk (nested : Bool) (p : Path) (s : Spec) (v : Value) (state : σ) :
    (s.walk r report mode nested p v).run.run state =
      (((Walker.walk r report mode s v).run.run ⟨p, nested, state⟩).1,
        ((Walker.walk r report mode s v).run.run ⟨p, nested, state⟩).2.state) := rfl

/-- Walking is the recursion in which place and mode are arguments. -/
theorem walk_eq_walkAt (nested : Bool) (p : Path) (s : Spec) (v : Value) :
    s.walk r report mode nested p v = s.walkAt r report (Expansion.atShape mode nested) p v := by
  refine ExceptT.ext (StateT.ext fun state => ?_)
  rw [run_walk, Walker.scoped_walk s σ report v]
  rfl

end Spec

end Conform

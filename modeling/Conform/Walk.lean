import Conform.Registry
import Conform.Expansion
/- Walks: a spec laid over a value. A walk goes through spec and value together and reports an outcome for each leaf
   and predicate, for each `$any` and `$not` as a whole, and for each value that cannot hold what its spec describes. The
   answer to a report is whether to go on: a conjunction ends at the first `false`, and the walk yields whether all
   answers were `true`. What is done about an outcome is thus up to the one who asks; what is reported is up to the
   walk alone.

   The one who walks is a `Walker`. It carries the path to the place where it stands and a flag that is set below the
   first shape, where a shallow expansion is not done again. Both are set for a part of the walk and put back after it,
   also when that part ends with a fault. The operands of `$any` and `$not` are tried by a walker of their own that starts
   from a copy of both and reports to nobody. -/
namespace Conform

/-- One test that was made in a walk. -/
structure Outcome where
  passed : Bool
  /-- Where the value stands. -/
  path : Path
  /-- The part of the spec that was tested. -/
  spec : Spec
  /-- The value that it was tested against. -/
  value : Value

/-- An action of a walk: it changes a state and may end with a fault. What was done before a fault stays done. -/
abbrev Walk (ε σ α : Type) := ExceptT ε (StateM σ) α

/-- Goes on with what was found, or ends with the fault of the spec. -/
def Walk.demand {ε σ α : Type} [OfSpecError ε] : Except SpecError α → Walk ε σ α
  | .ok a => return a
  | .error e => throw (ofSpecError e)

/-- How the outcomes of a walk are answered: whether to go on, or with a fault, which ends the whole walk. -/
abbrev Report (ε σ : Type) := Outcome → Walk ε σ Bool

/-- The expansion that a shape does: a deep one at every shape, a shallow one only at a shape below no other. -/
def Expansion.atShape (mode : Option Expansion) (nested : Bool) : Option Expansion :=
  match mode, nested with
  | some .shallow, true => none
  | mode, _ => mode

namespace Spec

/-- Going on means that the test passed; nothing else comes of it. -/
def quietly {ε σ : Type} : Report ε σ :=
  fun o => pure o.passed

/-- One of the named tests accepts the value. The names are looked up from left to right until one does. -/
def namedTestAccepts (r : Registry) (v : Value) : List String → Except SpecError Bool
  | [] => .ok false
  | name :: rest =>
    match r.find? name with
    | none => .error (r.unknown name)
    | some test => if test v then .ok true else namedTestAccepts r v rest

/-- The actions from left to right up to the first that yields `false`. -/
def conjunction {ε σ : Type} : List (Walk ε σ Bool) → Walk ε σ Bool
  | [] => pure true
  | action :: rest => do
    if ← action then conjunction rest else return false

end Spec

/-- One who walks, with what the one who asks keeps between two reports. -/
structure Walker (σ : Type) where
  path : Path
  /-- The walker stands below a shape. -/
  expanded : Bool
  state : σ

namespace Walker

/-! ## What walkers do -/

section
variable {ε σ α : Type}

/-- Takes a step inwards for an action. The step is taken back however the action ends. -/
def within (step : Segment) (action : Walk ε (Walker σ) α) : Walk ε (Walker σ) α := ExceptT.mk do
  modify fun w => { w with path := w.path.push step }
  let answer ← action.run
  modify fun w => { w with path := w.path.parent }
  return answer

/-- Sets the flag for an action. Afterwards it is what it was before, however the action ends. -/
def belowShape (action : Walk ε (Walker σ) α) : Walk ε (Walker σ) α := ExceptT.mk do
  let outer := (← get).expanded
  modify fun w => { w with expanded := true }
  let answer ← action.run
  modify fun w => { w with expanded := outer }
  return answer

/-- Reports a test that was made where the walker stands. -/
def tell (report : Report ε σ) (passed : Bool) (s : Spec) (v : Value) : Walk ε (Walker σ) Bool := ExceptT.mk do
  let w ← get
  let (answer, state) := (report ⟨passed, w.path, s, v⟩).run.run w.state
  set { w with state }
  return answer

/-- Sends out another walker, who starts from the same place and has nothing to keep. Only its answer comes back. -/
def probe (action : Walk ε (Walker Unit) α) : Walk ε (Walker σ) α := ExceptT.mk do
  let w ← get
  return (action.run.run ⟨w.path, w.expanded, ()⟩).1

end

/-! ## Walking -/

section
variable {ε : Type} [OfSpecError ε]
open Spec

mutual

/-- Lays a spec over a value where the walker stands. -/
def walk {σ : Type} (r : Registry) (report : Report ε σ) (mode : Option Expansion) (s : Spec) (v : Value) :
    Walk ε (Walker σ) Bool :=
  match s with
  | .leaf name => do
    let passed ← Walk.demand (namedTestAccepts r v (leafNames name))
    tell report passed s v
  | .predicate _ test => tell report (test v) s v
  | .listOf item =>
    match v.items? with
    | none => tell report false s v
    | some items => conjunction (items.mapIdx fun i x => within (.index i) (walk r report mode item x))
  | .operator op operands =>
    match op with
    | .all => walkAll r report mode v operands
    | .any => do
      let passed ← someOperandHolds r mode v operands
      tell report passed s v
    | .not => do
      let failed ← someOperandHolds r mode v operands
      tell report (!failed) s v
    | .tuple =>
      match v.items? with
      | none => tell report false s v
      | some items =>
        if items.length = operands.length then walkEach r report mode 0 operands items
        else tell report false s v
  | .tuple operands =>
    match v.items? with
    | none => tell report false s v
    | some items =>
      if items.length = operands.length then walkEach r report mode 0 operands items
      else tell report false s v
  | .shape fields =>
    if v.isComposite then do
      let w ← get
      let target := Expansion.apply (Expansion.atShape mode w.expanded) v
      -- the target is expanded by the flag as it was; the fields find it set
      belowShape (walkFields r report mode target fields)
    else tell report false s v
termination_by structural s

def walkAll {σ : Type} (r : Registry) (report : Report ε σ) (mode : Option Expansion) (v : Value)
    (operands : List Spec) : Walk ε (Walker σ) Bool :=
  match operands with
  | [] => pure true
  | s :: rest => do
    if ← walk r report mode s v then walkAll r report mode v rest else return false
termination_by structural operands

/-- Tries the operands over the same value until one matches. -/
def someOperandHolds {σ : Type} (r : Registry) (mode : Option Expansion) (v : Value) (operands : List Spec) :
    Walk ε (Walker σ) Bool :=
  match operands with
  | [] => pure false
  | s :: rest => do
    if ← probe (walk r quietly mode s v) then return true else someOperandHolds r mode v rest
termination_by structural operands

/-- Lays each operand over the element at its place; the first of them has the given index. -/
def walkEach {σ : Type} (r : Registry) (report : Report ε σ) (mode : Option Expansion) (start : Nat)
    (operands : List Spec) (items : List Value) : Walk ε (Walker σ) Bool :=
  match operands, items with
  | s :: rest, v :: values => do
    if ← within (.index start) (walk r report mode s v) then walkEach r report mode (start + 1) rest values
    else return false
  | _, _ => pure true
termination_by structural operands

/-- Lays the specs of fields over the fields of a value. A field that is missing is undefined. -/
def walkFields {σ : Type} (r : Registry) (report : Report ε σ) (mode : Option Expansion) (target : Value)
    (fields : List (String × Spec)) : Walk ε (Walker σ) Bool :=
  match fields with
  | [] => pure true
  | (name, s) :: rest => do
    if ← within (.key name) (walk r report mode s (target.fieldOrUndefined name)) then
      walkFields r report mode target rest
    else return false
termination_by structural fields

end

end

end Walker

/-- Lays a spec over a value: a walker sets out at a place, below a shape or not, and leaves its state behind. -/
def Spec.walk {ε σ : Type} [OfSpecError ε] (r : Registry) (report : Report ε σ) (mode : Option Expansion)
    (nested : Bool) (p : Path) (s : Spec) (v : Value) : Walk ε σ Bool := ExceptT.mk do
  let (answer, w) := (Walker.walk r report mode s v).run.run ⟨p, nested, ← get⟩
  set w.state
  return answer

end Conform

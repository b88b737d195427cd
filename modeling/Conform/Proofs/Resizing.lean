import Conform.Widget
import Conform.Proofs.NamedTests
/- Widgets and their sizes. Widgets are made and resized in any order, and both may fail; the registry may hold any tests,
   also none, under the names that are asked for. Making a widget and resizing one have an equation each, by what the
   registry says about the size (`run_create`, `run_resizeInPlace`). So no act makes the flag of a widget say something
   else than the registry does (`Kept`), a size is refused without any trace of it (`Resized`), and by induction on the
   acts both hold wherever acts can lead (`size_flags_are_truthful`). -/
namespace Conform

/-- What a sink keeps of a line: the line itself, or nothing. -/
def Sink.kept (sink : Sink) (line : Line) : List Line :=
  if sink.keeps line.level then [line] else []

theorem Journal.lines_add (j : Journal) (sink : Sink) (line : Line) :
    (j.add sink line).lines = j.lines ++ sink.kept line := by
  rw [add, Sink.kept]
  cases sink.keeps line.level with
  | false => exact (List.append_nil _).symm
  | true => rfl

namespace Widget

/-! ## One act -/

section
variable (i : Installer Widget) (name : String) (size : Value) (j : Journal)

/-- A widget before its size is checked, which is when its messages get their heading. -/
def unchecked : Widget :=
  ⟨name, size, false, i.context .type⟩

/-- What the messages of a widget start with if it is made with this name and this size. -/
def headingOf : String :=
  i.heading (.host (unchecked i name size))

/-- A widget as it is made, with the answer of the check of its size. -/
def made (sizeOk : Bool) : Widget :=
  ⟨name, size, sizeOk, i.context (.host (unchecked i name size))⟩

theorem run_create :
    (create i name size).run j =
      match i.registry.check "positive" size with
      | none => (.error (i.registry.unknown "positive"), j.withHeading.add i.sink
          ⟨.error, Check.errorMessage (headingOf i name size) (i.registry.unknown "positive")⟩)
      | some true => (.ok (made i name size true), j)
      | some false => (.ok (made i name size false), j.withHeading.add i.sink
          ⟨.warn, (Diagnostic.mk (headingOf i name size) "size" "positive" size.preview .root).message⟩) := by
  have hcheck := (i.context (.host (unchecked i name size))).check.run_isNamed
    (by decide : Spec.IsPlainName "positive") size "size" j
  have hregistry : (i.context (.host (unchecked i name size))).check.matcher.registry = i.registry := rfl
  rw [hregistry, unchecked] at hcheck
  simp only [create, StateT.run_bind, hcheck]
  rcases i.registry.check "positive" size with _ | _ | _ <;> rfl

theorem run_resizeInPlace (w : Widget) :
    ((resizeInPlace size).run w).run j =
      match (w.context.assertion.is sizeSpec size "size").run j with
      | (.error fault, j') => ((.error fault, w), j')
      | (.ok (), j') => ((.ok (), { w with size, sizeOk := true }), j') := by
  rw [resizeInPlace, StateT.run_bind, StateT.run_get, pure_bind, StateT.run_bind, StateT.run_bind, StateT.run_monadLift,
    StateT.run_bind]
  rcases (w.context.assertion.is sizeSpec size "size").run j with ⟨_ | _, _⟩ <;> rfl

/-- What comes of making a widget. It is made exactly if there is a test for its size. Its flag is what this test says, and
    a warning is written if that is `false`. If there is no test, this is written as an error. -/
def Made : Except SpecError Widget × Journal → Prop
  | (.ok w, j') =>
    i.registry.contains "positive" = true ∧ w.name = name ∧ w.size = size ∧
      (w.sizeOk = true ↔ i.registry.check "positive" size = some true) ∧
      (w.context.heading.run j').1 = headingOf i name size ∧
      j'.lines = j.lines ++ if w.sizeOk then [] else i.sink.kept
        ⟨.warn, (Diagnostic.mk (headingOf i name size) "size" "positive" size.preview .root).message⟩
  | (.error e, j') =>
    i.registry.contains "positive" = false ∧ e = .unknownType "positive" i.registry.names ∧
      j'.lines = j.lines ++ i.sink.kept ⟨.error, Check.errorMessage (headingOf i name size) e⟩

theorem made_create : Made i name size j ((create i name size).run j) := by
  rw [run_create]
  have hcontains := Registry.contains_eq_isSome_check i.registry "positive" size
  cases hcheck : i.registry.check "positive" size with
  | none =>
    rw [hcheck] at hcontains
    exact ⟨hcontains, rfl, Journal.lines_add _ _ _⟩
  | some b =>
    rw [hcheck] at hcontains
    cases b with
    | true => exact ⟨hcontains, rfl, rfl, by simp [made, hcheck], rfl, (List.append_nil _).symm⟩
    | false => exact ⟨hcontains, rfl, rfl, by simp [made, hcheck], rfl, Journal.lines_add _ _ _⟩

/-- The first test that a new size has to pass and that is not there. -/
def missing? (r : Registry) : Option String :=
  ["positive", "even"].find? fun name => !r.contains name

/-- The first test that a new size has to pass and does not. -/
def refusing? (r : Registry) (size : Value) : Option String :=
  ["positive", "even"].find? fun name => r.check name size ≠ some true

/-- What comes of resizing a widget: the answer, the widget afterwards and the journal. -/
structure Resized (r : Registry) (w : Widget) (result : (Except Fault Unit × Widget) × Journal) : Prop where
  /-- The size is taken exactly if both tests are there and accept it. -/
  ok_iff : result.1.1 = .ok () ↔ r.check "positive" size = some true ∧ r.check "even" size = some true
  /-- A size that is taken is the new size, and nothing else changes but the flag. -/
  taken : result.1.1 = .ok () → result.1.2 = { w with size, sizeOk := true }
  /-- A size that is refused changes nothing. -/
  refused : result.1.1 ≠ .ok () → result.1.2 = w
  /-- A test that is missing is blamed before one that does not accept the size, and the first of either kind is. -/
  blamed : ∀ fault, result.1.1 = .error fault →
    match missing? r with
    | some name => fault = .spec (.unknownType name r.names)
    | none => ∃ name, refusing? r size = some name ∧
      fault = .assertion ⟨(w.context.heading.run j).1, "size", name, size.preview, .root⟩
  /-- Nothing is written. -/
  lines_eq : result.2.lines = j.lines

/-- The widget answers for its size by the registry. -/
structure Kept (w : Widget) : Prop where
  truthful : w.sizeOk = true ↔ i.registry.check "positive" w.size = some true
  context_eq : ∃ first, w.context = i.context (.host (unchecked i w.name first))

variable {i name size j}

theorem Kept.made (name : String) (size : Value) :
    Kept i (made i name size (i.registry.check "positive" size = some true)) where
  truthful := by simp [Widget.made]
  context_eq := ⟨size, rfl⟩

theorem Kept.run_resizeInPlace {w : Widget} (h : Kept i w) (size : Value) (j : Journal) :
    ((resizeInPlace size).run w).run j =
      match missing? i.registry, refusing? i.registry size with
      | some name, _ => ((.error (.spec (i.registry.unknown name)), w), j)
      | none, none => ((.ok (), { w with size, sizeOk := true }), j)
      | none, some name =>
        ((.error (.assertion ⟨(w.context.heading.run j).1, "size", name, size.preview, .root⟩), w), j.withHeading) := by
  obtain ⟨first, hcontext⟩ := h.context_eq
  have hregistry : w.context.assertion.matcher.registry = i.registry := by rw [hcontext]; rfl
  have hplain : ∀ name ∈ ["positive", "even"], Spec.IsPlainName name := by decide
  have hrun := w.context.assertion.run_is_all_leaves hplain size "size" j
  rw [hregistry] at hrun
  have hsize : sizeSpec = .operator .all (["positive", "even"].map .leaf) := rfl
  rw [Widget.run_resizeInPlace, hsize, hrun, missing?, refusing?]
  cases ["positive", "even"].find? fun name => !i.registry.contains name with
  | some name => rfl
  | none => cases ["positive", "even"].find? fun name => i.registry.check name size ≠ some true <;> rfl

theorem refusing?_eq_none_iff {r : Registry} :
    refusing? r size = none ↔ r.check "positive" size = some true ∧ r.check "even" size = some true := by
  rw [refusing?, List.find?_eq_none]
  simp

/-- A test that is missing accepts nothing. -/
theorem refusing?_ne_none_of_missing {r : Registry} {name : String} (h : missing? r = some name) :
    refusing? r size ≠ none := by
  have hmem := List.mem_of_find?_eq_some h
  have hcontains : r.contains name = false := by simpa using List.find?_some h
  rw [Registry.contains_eq_isSome_check r name size] at hcontains
  rw [refusing?, ne_eq, List.find?_eq_none]
  intro hnone
  have haccepted : r.check name size = some true := by simpa using hnone name hmem
  rw [haccepted] at hcontains
  cases hcontains

theorem Kept.resized {w : Widget} (h : Kept i w) (size : Value) (j : Journal) :
    Resized size j i.registry w (((resizeInPlace size).run w).run j) := by
  rw [h.run_resizeInPlace]
  cases hmissing : missing? i.registry with
  | some name =>
    have hrefusing : refusing? i.registry size ≠ none := refusing?_ne_none_of_missing hmissing
    rw [ne_eq, refusing?_eq_none_iff] at hrefusing
    exact {
      ok_iff := ⟨(fun hok => nomatch hok), fun haccepted => absurd haccepted hrefusing⟩
      taken := fun hok => nomatch hok
      refused := fun _ => rfl
      blamed := fun fault hfault => by
        rw [hmissing]
        exact (Except.error.inj hfault).symm
      lines_eq := rfl }
  | none =>
    cases hrefusing : refusing? i.registry size with
    | none =>
      exact {
        ok_iff := ⟨fun _ => refusing?_eq_none_iff.1 hrefusing, fun _ => rfl⟩
        taken := fun _ => rfl
        refused := fun hrefused => absurd rfl hrefused
        blamed := fun fault hfault => nomatch hfault
        lines_eq := rfl }
    | some name =>
      have hnone : refusing? i.registry size ≠ none := by simp [hrefusing]
      rw [ne_eq, refusing?_eq_none_iff] at hnone
      exact {
        ok_iff := ⟨(fun hok => nomatch hok), fun haccepted => absurd haccepted hnone⟩
        taken := fun hok => nomatch hok
        refused := fun _ => rfl
        blamed := fun fault hfault => by
          rw [hmissing]
          exact ⟨name, hrefusing, (Except.error.inj hfault).symm⟩
        lines_eq := rfl }

end

/-! ## Any number of acts -/

/-- What is done with widgets: one more is made, or one of them is resized. -/
inductive Act where
  | create (name : String) (size : Value)
  | resize (k : Nat) (size : Value)

/-- An action on the widgets that there are, in the order in which they were made. -/
abbrev Workshop := StateT (List Widget) Journaled

namespace Act

def perform (i : Installer Widget) : Act → Workshop (Option (Except Fault Unit))
  | create name size => do
    match ← Widget.create i name size with
    | .error e => return some (.error (.spec e))
    | .ok w => do
      modify fun widgets => widgets ++ [w]
      return some (.ok ())
  | resize k size => do
    match (← get)[k]? with
    | none => return none
    | some w => do
      let (answer, w) ← (resizeInPlace size).run w
      modify fun widgets => widgets.set k w
      return some answer

def performAll (i : Installer Widget) (acts : List Act) : Workshop (List (Option (Except Fault Unit))) :=
  acts.mapM (perform i)

end Act

section
variable {i : Installer Widget} {widgets : List Widget}

theorem run_perform_create (name : String) (size : Value) (j : Journal) :
    (((Act.create name size).perform i).run widgets).run j =
      match (create i name size).run j with
      | (.error e, j') => ((some (.error (.spec e)), widgets), j')
      | (.ok w, j') => ((some (.ok ()), widgets ++ [w]), j') := by
  rw [Act.perform, StateT.run_bind, StateT.run_bind, StateT.run_monadLift, StateT.run_bind]
  rcases (create i name size).run j with ⟨_ | _, _⟩ <;> rfl

theorem run_perform_resize (k : Nat) (size : Value) (j : Journal) :
    (((Act.resize k size).perform i).run widgets).run j =
      match widgets[k]? with
      | none => ((none, widgets), j)
      | some w =>
        let result := ((resizeInPlace size).run w).run j
        ((some result.1.1, widgets.set k result.1.2), result.2) := by
  rw [Act.perform, StateT.run_bind, StateT.run_get, pure_bind]
  cases widgets[k]? <;> rfl

theorem Kept.of_create {name : String} {size : Value} {j : Journal} {w : Widget}
    (h : ((create i name size).run j).1 = .ok w) : Kept i w := by
  have hkept : Kept i (Widget.made i name size _) := Kept.made name size
  rw [run_create] at h
  cases hcheck : i.registry.check "positive" size with
  | none =>
    rw [hcheck] at h
    cases h
  | some b =>
    rw [hcheck] at h hkept
    cases b <;> cases h <;> simpa using hkept

theorem Kept.resizeInPlace {w : Widget} (h : Kept i w) (size : Value) (j : Journal) :
    Kept i (((Widget.resizeInPlace size).run w).run j).1.2 := by
  have hresized := h.resized size j
  by_cases hok : (((Widget.resizeInPlace size).run w).run j).1.1 = .ok ()
  · rw [hresized.taken hok]
    exact ⟨iff_of_true rfl (hresized.ok_iff.1 hok).1, h.context_eq⟩
  · rw [hresized.refused hok]
    exact h

/-- After an act all widgets answer for their sizes if they did before, also if the act failed. -/
theorem kept_perform (act : Act) (h : ∀ w ∈ widgets, Kept i w) (j : Journal) :
    ∀ w ∈ (((act.perform i).run widgets).run j).1.2, Kept i w := by
  cases act with
  | create name size =>
    rw [run_perform_create]
    rcases hmade : (create i name size).run j with ⟨e | made, j'⟩
    · exact h
    · intro w hw
      rcases List.mem_append.1 hw with hw | hw
      · exact h w hw
      · obtain rfl := List.mem_singleton.1 hw
        exact Kept.of_create (congrArg Prod.fst hmade)
  | resize k size =>
    rw [run_perform_resize]
    cases hk : widgets[k]? with
    | none => exact h
    | some resized =>
      intro w hw
      rcases List.mem_or_eq_of_mem_set hw with hw | rfl
      · exact h w hw
      · exact (h resized (List.mem_of_getElem? hk)).resizeInPlace size j

theorem kept_performAll (acts : List Act) (h : ∀ w ∈ widgets, Kept i w) (j : Journal) :
    ∀ w ∈ (((Act.performAll i acts).run widgets).run j).1.2, Kept i w := by
  induction acts generalizing widgets j with
  | nil => exact h
  | cons act rest ih =>
    have hrest := ih (kept_perform act h j) (((act.perform i).run widgets).run j).2
    rw [Act.performAll, List.mapM_cons]
    exact hrest

end

/-- Wherever acts lead from no widgets at all, whichever tests the registry holds: the flag of every widget says whether the
    test for positive numbers accepts the size of the widget; one more widget is made as it should be; and each of the
    widgets is resized or refuses to be without any trace of it. -/
theorem size_flags_are_truthful (i : Installer Widget) (acts : List Act) (start : Journal) :
    ∃ answers widgets j, ((Act.performAll i acts).run []).run start = ((answers, widgets), j) ∧
      (∀ w ∈ widgets, (w.sizeOk = true ↔ i.registry.check "positive" w.size = some true)) ∧
      (∀ name size, Made i name size j ((create i name size).run j)) ∧
      (∀ w ∈ widgets, ∀ size, Resized size j i.registry w (((resizeInPlace size).run w).run j)) := by
  have hkept : ∀ w ∈ (((Act.performAll i acts).run []).run start).1.2, Kept i w :=
    kept_performAll acts (fun _ hw => absurd hw List.not_mem_nil) start
  refine ⟨_, _, _, rfl, fun w hw => (hkept w hw).truthful, fun name size => made_create i name size _, fun w hw size => ?_⟩
  exact (hkept w hw).resized size _

end Widget

end Conform

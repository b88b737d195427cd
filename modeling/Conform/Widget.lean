import Conform.Installer
import Conform.Registry.Standard
/- Widgets: a host type that watches over its own data. A widget has a name and a size. The size of a new widget is
   checked and kept in any case; later sizes have to be positive even numbers, or the widget stays as it was. -/
namespace Conform

structure Widget where
  name : String
  size : Value
  /-- The size passed its check. -/
  sizeOk : Bool
  context : Context

namespace Widget

/-- Widgets are called by their names, unless these are empty. -/
def labels : Labels Widget :=
  ⟨"Widget", some fun w => if w.name.isEmpty then none else some w.name⟩

def installer (registry : Registry) : Installer Widget :=
  ⟨labels, registry, .memory, none⟩

/-- What a size has to be when a widget is resized. -/
def sizeSpec : Spec :=
  .combine .all [.leaf "positive", .leaf "even"]

/-- A new widget. Its size is checked to be positive, which it need not be. -/
def create (installer : Installer Widget) (name : String) (size : Value) :
    Journaled (Except SpecError Widget) := do
  let unnamed : Widget := ⟨name, size, false, installer.context .type⟩
  -- the heading is made for the widget as it is before the check
  let w := { unnamed with context := installer.context (.host unnamed) }
  match ← w.context.check.isNamed "positive" w.size "size" with
  | .error e => return .error e
  | .ok sizeOk => return .ok { w with sizeOk }

/-- Gives the widget another size, if it is one that a widget may be resized to. -/
def resizeInPlace (size : Value) : StateT Widget Journaled (Except Fault Unit) := do
  match ← (← get).context.assertion.is sizeSpec size "size" with
  | .error fault => return .error fault
  | .ok () => do
    modify fun w => { w with size }
    modify fun w => { w with sizeOk := true }
    return .ok ()

/-- The widget with another size, or the fault of the size. -/
def resize (w : Widget) (size : Value) : Journaled (Except Fault Widget) := do
  let (answer, w) ← (resizeInPlace size).run w
  return answer.map fun _ => w

end Widget

end Conform

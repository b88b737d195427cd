import Conform.Outline
/- Journals: what has been said. Messages are lines with a level; a sink decides which levels are kept. A heading may
   change from one use to the next, so the journal also counts how often headings were made: the n-th use of a heading
   gets its n-th text. A journal that is held in memory can be asked for its lines and be cleared. -/
namespace Conform

/-- How serious a line is. -/
inductive Level where
  /-- A value does not look as expected. -/
  | warn
  /-- A spec is at fault. -/
  | error
  /-- Anything else that is worth saying. -/
  | log
  deriving DecidableEq, Repr

structure Line where
  level : Level
  text : String
  deriving DecidableEq, Repr

/-- What becomes of messages. -/
inductive Sink where
  /-- All lines are kept. -/
  | memory
  /-- Warnings and errors are kept. -/
  | findings
  /-- Nothing is kept. -/
  | discard
  deriving DecidableEq, Repr

def Sink.keeps : Sink → Level → Bool
  | memory, _ => true
  | findings, level => level ≠ .log
  | discard, _ => false

/-- The lines so far, oldest first, and the number of headings made so far. -/
structure Journal where
  headings : Nat
  lines : List Line
  deriving DecidableEq, Repr

/-- An action that may write to the journal. -/
abbrev Journaled := StateM Journal

/-- The text that messages start with, by the number of headings made before. -/
abbrev Heading := Nat → String

def Heading.fixed (text : String) : Heading :=
  fun _ => text

/-- Makes a heading. -/
def Heading.next (heading : Heading) : Journaled String := do
  let journal ← get
  set { journal with headings := journal.headings + 1 }
  return heading journal.headings

namespace Journal

def empty : Journal := ⟨0, []⟩

/-- The journal with a line at its end, if the sink keeps it. -/
def add (journal : Journal) (sink : Sink) (line : Line) : Journal :=
  if sink.keeps line.level then { journal with lines := journal.lines ++ [line] } else journal

/-- The texts of one level, oldest first. -/
def texts (journal : Journal) (level : Level) : List String :=
  (journal.lines.filter fun line => line.level = level).map Line.text

@[simp] theorem headings_add (journal : Journal) (sink : Sink) (line : Line) :
    (journal.add sink line).headings = journal.headings := by
  unfold add; split <;> rfl

@[simp] theorem lines_add_memory (journal : Journal) (line : Line) :
    (journal.add .memory line).lines = journal.lines ++ [line] := by
  simp [add, Sink.keeps]

end Journal

def Sink.write (sink : Sink) (level : Level) (text : String) : Journaled Unit :=
  modify fun journal => journal.add sink ⟨level, text⟩

/-! ## Requests -/

namespace Journal

/-- What can be asked of a journal. -/
inductive Request where
  | write (level : Level) (text : String)
  | clear
  | lines
  | texts (level : Level)
  | isEmpty
  deriving DecidableEq, Repr

inductive Answer where
  | done
  | lines (lines : List Line)
  | texts (texts : List String)
  | flag (b : Bool)
  deriving DecidableEq, Repr

def Request.run : Request → Journaled Answer
  | write level text => do
    Sink.memory.write level text
    return .done
  | clear => do
    modify fun journal => { journal with lines := [] }
    return .done
  | lines => return .lines (← get).lines
  | texts level => return .texts ((← get).texts level)
  | isEmpty => return .flag (← get).lines.isEmpty

end Journal

end Conform

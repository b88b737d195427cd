import Conform.Outline
/- Places inside values and specs. A path leads from the root inwards, through fields by name and through sequences by
   index. -/
namespace Conform

/-- One step inwards. -/
inductive Segment where
  | key (name : String)
  | index (position : Nat)
  deriving DecidableEq, Repr

namespace Segment

def text : Segment → String
  | key name => name
  | index position => toString position

def outline : Segment → Outline
  | key name => .tagged "Key" [.quoted name]
  | index position => .tagged "Index" [.ofNat position]

end Segment

/-- The steps from the root, outermost first. -/
structure Path where
  segments : List Segment
  deriving DecidableEq, Repr, Inhabited

namespace Path

def root : Path := ⟨[]⟩

/-- The path with one more step at its inner end. -/
def push (p : Path) (s : Segment) : Path :=
  ⟨p.segments ++ [s]⟩

def key (p : Path) (name : String) : Path :=
  p.push (.key name)

def index (p : Path) (position : Nat) : Path :=
  p.push (.index position)

/-- The path without its innermost step. -/
def parent (p : Path) : Path :=
  ⟨p.segments.dropLast⟩

def length (p : Path) : Nat :=
  p.segments.length

def isRoot (p : Path) : Bool :=
  p.segments.isEmpty

/-- The steps joined by dots. -/
def dotted (p : Path) : String :=
  ".".intercalate (p.segments.map Segment.text)

/-- The steps joined by dots, with a word of its own for the root. -/
def display (p : Path) : String :=
  if p.isRoot then "(root)" else p.dotted

/-- The steps put behind the description of the root, with a dot between two that are not empty. -/
def describe (p : Path) (description : String) : String :=
  if p.isRoot then description
  else if description.isEmpty then p.dotted
  else description ++ "." ++ p.dotted

def outline (p : Path) : Outline :=
  .tagged "Path" [.list (p.segments.map Segment.outline)]

@[simp] theorem parent_push (p : Path) (s : Segment) : (p.push s).parent = p := by
  simp [push, parent]

@[simp] theorem describe_root (description : String) : root.describe description = description := rfl

end Path

end Conform

/- Outlines: the structure of a value of this library on one line. An outline is a tree of words, quoted texts, lists,
   tagged tuples and records, and `Outline.render` is the only place where it becomes a text. -/
namespace Conform

/-- The structure of something, for reading. -/
inductive Outline where
  /-- A word or a number. -/
  | word (text : String)
  /-- A text that is shown between quotes. -/
  | quoted (text : String)
  /-- A sequence. -/
  | list (items : List Outline)
  /-- A name with arguments; without a name it is a tuple. -/
  | tagged (name : String) (arguments : List Outline)
  /-- A name with named fields. A record that is not complete says so at its end. -/
  | record (name : String) (fields : List (String × Outline)) (complete : Bool)

namespace Outline

def hexDigits (n : Nat) : String :=
  String.ofList (Nat.toDigits 16 n)

/-- How a character is shown between quotes. -/
def escape (c : Char) : String :=
  match c with
  | '"' => "\\\""
  | '\\' => "\\\\"
  | '\n' => "\\n"
  | '\r' => "\\r"
  | '\t' => "\\t"
  | '\x00' => "\\0"
  | c =>
    if c.toNat < 0x20 ∨ c.toNat = 0x7f then "\\u\x7b" ++ hexDigits c.toNat ++ "\x7d"
    else String.singleton c

/-- A text between quotes. -/
def quote (s : String) : String :=
  "\"" ++ String.join (s.toList.map escape) ++ "\""

mutual

def render : Outline → String
  | word text => text
  | quoted text => quote text
  | list items => "[" ++ ", ".intercalate (renderItems items) ++ "]"
  | tagged name arguments => name ++ "(" ++ ", ".intercalate (renderItems arguments) ++ ")"
  | record name fields complete =>
    name ++ " \x7b " ++ ", ".intercalate (renderFields fields ++ if complete then [] else [".."]) ++ " \x7d"

def renderItems : List Outline → List String
  | [] => []
  | item :: rest => render item :: renderItems rest

def renderFields : List (String × Outline) → List String
  | [] => []
  | (name, item) :: rest => (name ++ ": " ++ render item) :: renderFields rest

end

def ofBool (b : Bool) : Outline :=
  word (if b then "true" else "false")

def ofNat (n : Nat) : Outline :=
  word (toString n)

/-- The outline of the only value of the type with one value. -/
def ofUnit : Outline :=
  tagged "" []

def ofOption {α : Type} (outline : α → Outline) : Option α → Outline
  | none => word "None"
  | some a => tagged "Some" [outline a]

/-- The outline of a result or the error in its place. -/
def ofExcept {ε α : Type} (error : ε → Outline) (ok : α → Outline) : Except ε α → Outline
  | .ok a => tagged "Ok" [ok a]
  | .error e => tagged "Err" [error e]

end Outline

end Conform

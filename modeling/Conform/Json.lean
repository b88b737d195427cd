import Conform.Binary64
import Conform.Text
/- JSON data and how it is read. Numbers that were written as integers are kept apart from the others, and an object is
   the list of its members in the order in which they were declared. The reader goes by the strict grammar: control
   characters in strings, unpaired surrogates, leading zeros, trailing data and numbers beyond the finite range are
   refused. Containers nest up to a limit, which also bounds the recursion. -/
namespace Conform

/-- A JSON text as data. -/
inductive Json where
  | null
  | bool (value : Bool)
  | int (value : Int)
  | float (value : Binary64)
  | string (value : String)
  | array (items : List Json)
  | object (members : List (String × Json))
  deriving Repr, Inhabited

namespace Json

/-- The member stored under a name in a list of members. -/
def member? (name : String) : List (String × Json) → Option Json
  | [] => none
  | (n, v) :: rest => if n = name then some v else member? name rest

/-- Stores a member. A name that is present keeps its place and gets the new value; a new name goes to the end. -/
def setMember (name : String) (value : Json) : List (String × Json) → List (String × Json)
  | [] => [(name, value)]
  | (n, v) :: rest => if n = name then (n, value) :: rest else (n, v) :: setMember name value rest

/-- The members of a list of pairs: each name once, at its first place and with its last value. -/
def collectMembers (pairs : List (String × Json)) : List (String × Json) :=
  pairs.foldl (fun members p => setMember p.1 p.2 members) []

def get? (name : String) : Json → Option Json
  | .object members => member? name members
  | _ => none

/-! ## Numbers
   An integer of 64 bits, with or without sign, stays an integer, except that `-0` is the negative zero. Every other
   numeral becomes a number of 64 bits in one of two ways. -/

/-- How a numeral that is no integer of 64 bits becomes a number. -/
inductive Rounding where
  /-- The number nearest to all digits. -/
  | nearest
  /-- The leading digits below 2^64, rounded and scaled by the power of ten. -/
  | scaled
  deriving DecidableEq, Repr

/-- The number that a numeral becomes, unless it lies beyond the finite range. -/
def Rounding.round? : Rounding → Numeral → Option Binary64
  | nearest, n =>
    let x := Binary64.ofDecimal n.isNegative n.magnitude
    if x.isFinite then some x else none
  | scaled, n => Binary64.ofScaled? n.isNegative (n.leading (Nat.pow 2 64))

/-- The numeral is one that the grammar allows: no plus sign, a digit on both sides of a point, and no zero in
    front of other digits. -/
def allowsNumeral (n : Numeral) : Bool :=
  n.sign ≠ some '+' && !n.whole.isEmpty && n.fraction ≠ some [] &&
    (n.whole.head? ≠ some '0' || n.whole.length = 1)

/-- The number that an integer numeral of 64 bits stands for. -/
def integerOf? (n : Numeral) : Option Int :=
  let size := Numeral.digitsValue n.whole
  if !n.isInteger then none
  else if n.isNegative then (if 0 < size ∧ size ≤ Nat.pow 2 63 then some (-(size : Int)) else none)
  else if size < Nat.pow 2 64 then some size else none

def ofNumeral? (rounding : Rounding) (n : Numeral) : Option Json :=
  match integerOf? n with
  | some i => some (.int i)
  | none => (rounding.round? n).map .float

def readNumber? (rounding : Rounding) (cs : List Char) : Option (Json × List Char) := do
  let (n, rest) ← Numeral.read? cs
  if allowsNumeral n then
    let number ← ofNumeral? rounding n
    return (number, rest)
  else none

/-! ## Texts and containers -/

/-- The characters that may stand between tokens. -/
def isGap (c : Char) : Bool :=
  c = ' ' || c = '\t' || c = '\n' || c = '\r'

def dropGap (cs : List Char) : List Char :=
  cs.dropWhile isGap

/-- The characters of a string up to its closing quote, and the rest. -/
def readString? : List Char → Option (List Char × List Char)
  | [] => none
  | '"' :: rest => some ([], rest)
  | '\\' :: 'u' :: a :: b :: c :: d :: rest =>
    match Text.codeUnit? a b c d with
    | none => none
    | some unit =>
      -- one half of a pair needs the other half right behind it
      if Text.isSurrogate unit then
        match rest with
        | '\\' :: 'u' :: a :: b :: c :: d :: rest =>
          match (Text.codeUnit? a b c d).bind (Text.ofUnitPair? unit) with
          | none => none
          | some char => (readString? rest).map fun (text, rest) => (char :: text, rest)
        | _ => none
      else (readString? rest).map fun (text, rest) => (Char.ofNat unit :: text, rest)
  | '\\' :: c :: rest =>
    match Text.unescape? c with
    | none => none
    | some char => (readString? rest).map fun (text, rest) => (char :: text, rest)
  | c :: rest =>
    if c.toNat < 0x20 ∨ c = '\\' then none
    else (readString? rest).map fun (text, rest) => (c :: text, rest)

def readMember? (value : List Char → Option (Json × List Char)) (cs : List Char) :
    Option ((String × Json) × List Char) :=
  match cs with
  | '"' :: rest => do
    let (name, rest) ← readString? rest
    match dropGap rest with
    | ':' :: rest =>
      let (v, rest) ← value (dropGap rest)
      return ((String.ofList name, v), rest)
    | _ => none
  | _ => none

/-- A value at the front of a text, and the rest. `nesting` containers may be open at a time, each with at most
    `bound` items. -/
def readValue? (rounding : Rounding) (bound : Nat) (nesting : Nat) (cs : List Char) :
    Option (Json × List Char) :=
  match cs with
  | 'n' :: 'u' :: 'l' :: 'l' :: rest => some (.null, rest)
  | 't' :: 'r' :: 'u' :: 'e' :: rest => some (.bool true, rest)
  | 'f' :: 'a' :: 'l' :: 's' :: 'e' :: rest => some (.bool false, rest)
  | '"' :: rest => (readString? rest).map fun (text, rest) => (.string (String.ofList text), rest)
  | '[' :: rest =>
    match nesting with
    | 0 => none
    | nesting + 1 =>
      (Text.readEnclosed? dropGap (readValue? rounding bound nesting) ']' bound rest).map
        fun (items, rest) => (.array items, rest)
  | '\x7b' :: rest =>
    match nesting with
    | 0 => none
    | nesting + 1 =>
      (Text.readEnclosed? dropGap (readMember? (readValue? rounding bound nesting)) '\x7d' bound rest).map
        fun (members, rest) => (.object (collectMembers members), rest)
  | c :: rest => if c = '-' ∨ c.isDigit then readNumber? rounding (c :: rest) else none
  | [] => none

/-- The data of a whole text, in which at most `nesting` containers are open at a time. No container has more
    items than the text has characters. -/
def readWith? (rounding : Rounding) (nesting : Nat) (text : String) : Option Json :=
  let cs := text.toList
  match readValue? rounding cs.length nesting (dropGap cs) with
  | some (value, rest) => if rest.all isGap then some value else none
  | none => none

def nestingLimit : Nat := 127

/-- The data of a whole text, with the usual limit and numbers from their leading digits. -/
def read? (text : String) : Option Json :=
  readWith? .scaled nestingLimit text

end Json

end Conform

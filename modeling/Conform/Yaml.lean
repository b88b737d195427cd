import Conform.Record
/- YAML documents made of the forms that they share with JSON: words without quotes, quoted texts, sequences and mappings.
   A word keeps the characters it was written with, because what it means depends on where it stands; a mapping is the
   list of its members as they were declared, where names may repeat. A text holds printable characters only, and five
   sorts of line breaks, of which all but the separators of lines and paragraphs count as line feeds. A line of three
   dashes stands between any two documents and may stand in front of the first. Whatever has no meaning ends the
   reading. -/
namespace Conform

/-- A YAML document as a tree. -/
inductive Yaml where
  | word (text : String)
  | quoted (text : String)
  | sequence (items : List Yaml)
  | mapping (members : List (String × Yaml))
  deriving Repr, Inhabited

namespace Yaml

/-! ## Characters and lines -/

/-- The closed ranges of the characters that a text may hold. -/
def characterRanges : List (Nat × Nat) :=
  [(0x09, 0x0A), (0x0D, 0x0D), (0x20, 0x7E), (0x85, 0x85), (0xA0, 0xD7FF), (0xE000, 0xFFFD), (0x10000, 0x10FFFF)]

def isCharacter (c : Char) : Bool :=
  characterRanges.any fun r => r.1 ≤ c.toNat && c.toNat ≤ r.2

/-- The mark that may stand in front of a text and of each line. -/
def byteOrderMark : Char := '\ufeff'

/-- The text with a line feed for every line break that counts as one. -/
def unifyBreaks : List Char → List Char
  | [] => []
  | '\r' :: '\n' :: cs => '\n' :: unifyBreaks cs
  | c :: cs => (if c = '\r' ∨ c = '\u0085' then '\n' else c) :: unifyBreaks cs

/-- A line ends with the character. -/
def isBreak (c : Char) : Bool :=
  c = '\n' || c = '\u2028' || c = '\u2029'

def isSpace (c : Char) : Bool :=
  c = ' ' || c = '\t'

def isGap (c : Char) : Bool :=
  isSpace c || isBreak c

/-- The text starts with a mark, and a gap or the end follows. -/
def startsWithMark (mark cs : List Char) : Bool :=
  mark.isPrefixOf cs && (cs.drop mark.length).head?.all isGap

/-- The mark in front of a document. -/
def documentStart : List Char := ['-', '-', '-']

/-- The mark behind a document. -/
def documentEnd : List Char := ['.', '.', '.']

/-- What stands on the line so far. -/
inductive Margin where
  /-- Nothing. -/
  | empty
  /-- Spaces or a byte order mark. -/
  | indented
  /-- A part of a document. -/
  | used
  deriving DecidableEq, Repr

def Margin.indent : Margin → Margin
  | used => used
  | _ => indented

/-- Passes over spaces and line breaks around a document. A tab may follow a part of a document on its line. -/
def skipMargin (margin : Margin) : List Char → Margin × List Char
  | [] => (margin, [])
  | c :: cs =>
    if isBreak c then skipMargin .empty cs
    else if c = ' ' ∨ (c = '\t' ∧ margin = .used) ∨ (c = byteOrderMark ∧ margin = .empty) then
      skipMargin margin.indent cs
    else (margin, c :: cs)

/-- Passes over the gap between the parts of a document. A byte order mark may stand in front of a line. -/
def skipGap (lineStart : Bool) : List Char → List Char
  | [] => []
  | c :: cs =>
    if isBreak c then skipGap true cs
    else if isSpace c ∨ (c = byteOrderMark ∧ lineStart) then skipGap false cs
    else c :: cs

/-! ## Texts in quotes
   Escapes are those of JSON, except that a surrogate stands for nothing. A text may go over several lines, which are
   folded: the spaces around a line break do not count, a break alone is a space, and of several the first is dropped if
   it is a line feed. A mark that separates documents ends the reading if it stands at the start of a line. -/

/-- What a gap inside a text stands for. -/
def foldGap (gap : List Char) : List Char :=
  match gap.filter isBreak with
  | [] => gap
  | '\n' :: [] => [' ']
  | '\n' :: others => others
  | breaks => breaks

/-- A mark that separates documents stands at the start of a line, where `gap` is what came before, the last first. -/
def isSeparatedHere (gap cs : List Char) : Bool :=
  gap.head?.any isBreak && (startsWithMark documentStart cs || startsWithMark documentEnd cs)

/-- The characters of a text up to its closing quote, and the rest. The gap that was just passed is put in front, the
    last character first. -/
def readQuotedAfter? (gap : List Char) : List Char → Option (List Char × List Char)
  | [] => none
  | '"' :: rest => some (foldGap gap.reverse, rest)
  | '\\' :: 'u' :: a :: b :: c :: d :: rest =>
    match (Text.codeUnit? a b c d).bind Text.ofUnit? with
    | none => none
    | some char =>
      (readQuotedAfter? [] rest).map fun (text, rest) => (foldGap gap.reverse ++ char :: text, rest)
  | '\\' :: c :: rest =>
    match Text.unescape? c with
    | none => none
    | some char =>
      (readQuotedAfter? [] rest).map fun (text, rest) => (foldGap gap.reverse ++ char :: text, rest)
  | c :: rest =>
    -- a gap is held back until what follows tells whether it has to be folded
    if isGap c then readQuotedAfter? (c :: gap) rest
    else if c = '\\' ∨ isSeparatedHere gap (c :: rest) then none
    else (readQuotedAfter? [] rest).map fun (text, rest) => (foldGap gap.reverse ++ c :: text, rest)

def readQuoted? (cs : List Char) : Option (String × List Char) :=
  (readQuotedAfter? [] cs).map fun (text, rest) => (String.ofList text, rest)

/-- The characters at the front of a text that fit into a number of bytes of UTF-8. -/
def takeBytes (size : Nat) : List Char → List Char
  | [] => []
  | c :: cs => if c.utf8Size ≤ size then c :: takeBytes (size - c.utf8Size) cs else []

/-- How many bytes of UTF-8 a key may have behind its opening quote, with what stands in front of its colon. -/
def maxKeySize : Nat := 1023

/-- A key up to its colon, and the rest. Key and colon stand on one line, not too far apart. -/
def readKey? (cs : List Char) : Option (String × List Char) :=
  let line := (takeBytes (maxKeySize + 1) cs).takeWhile fun c => !isBreak c
  match readQuoted? line with
  | none => none
  | some (key, rest) =>
    match rest.dropWhile isSpace with
    | ':' :: rest => some (key, cs.drop (line.length - rest.length))
    | _ => none

/-! ## Words
   A word stands for data if it is null, a truth value or a numeral; whole numbers are exact and others the nearest
   numbers of 64 bits. A numeral beyond the finite range is a mere text. -/

def wordBool? (text : String) : Option Bool :=
  if text = "true" then some true else if text = "false" then some false else none

def isNullWord (text : String) : Bool :=
  text = "null"

def wordNumeral? (text : String) : Option Numeral :=
  match Numeral.read? text.toList with
  | some (n, []) => if Json.allowsNumeral n then some n else none
  | _ => none

/-- The word is one that data can be written with. -/
def isWord (text : String) : Bool :=
  isNullWord text || (wordBool? text).isSome || (wordNumeral? text).isSome

/-- The integer needs no more bits than given, with or without sign. -/
def fitsBits (bits : Nat) (n : Int) : Bool :=
  -Int.pow 2 (bits - 1) ≤ n && n < Int.pow 2 bits

/-- The data that a numeral stands for, where `text` is how it was written. Integers of more than 64 bits are refused,
    unless they need more than 128 and are read as other numbers. -/
def numeralJson? (text : String) (n : Numeral) : Option Json :=
  if n.isInteger && fitsBits 64 n.integer then some (.int n.integer)
  else if n.isInteger && fitsBits 128 n.integer then none
  else match Json.Rounding.nearest.round? n with
    | some x => some (.float x)
    | none => some (.string text)

def wordJson? (text : String) : Option Json :=
  if isNullWord text then some .null
  else match wordBool? text, wordNumeral? text with
    | some b, _ => some (.bool b)
    | none, some n => numeralJson? text n
    | none, none => some (.string text)

/-! ## Documents -/

def dropGap (cs : List Char) : List Char :=
  skipGap false cs

def endsWord (c : Char) : Bool :=
  isGap c || [',', '[', ']', '\x7b', '\x7d'].contains c

def readWord? (cs : List Char) : Option (Yaml × List Char) :=
  let text := String.ofList (cs.takeWhile fun c => !endsWord c)
  if isWord text then some (.word text, cs.dropWhile fun c => !endsWord c) else none

/-- A member of a mapping: a key in quotes with its colon, and a node. -/
def readMember? (node : List Char → Option (Yaml × List Char)) (cs : List Char) :
    Option ((String × Yaml) × List Char) :=
  match cs with
  | '"' :: rest => do
    let (key, rest) ← readKey? rest
    let (value, rest) ← node (dropGap rest)
    return ((key, value), rest)
  | _ => none

/-- A node at the front of a text, and the rest. `nesting` containers may be open at a time, each with at most `bound`
    items. -/
def readNode? (bound : Nat) (nesting : Nat) (cs : List Char) : Option (Yaml × List Char) :=
  match cs with
  | '"' :: rest => (readQuoted? rest).map fun (text, rest) => (.quoted text, rest)
  | '[' :: rest =>
    match nesting with
    | 0 => none
    | nesting + 1 =>
      (Text.readEnclosed? dropGap (readNode? bound nesting) ']' bound rest).map
        fun (items, rest) => (.sequence items, rest)
  | '\x7b' :: rest =>
    match nesting with
    | 0 => none
    | nesting + 1 =>
      (Text.readEnclosed? dropGap (readMember? (readNode? bound nesting)) '\x7d' bound rest).map
        fun (members, rest) => (.mapping members, rest)
  | cs => readWord? cs

/-- The start of the next document. Only the first document needs no mark. -/
def skipStart? (isFirst : Bool) (margin : Margin) (cs : List Char) : Option (List Char) :=
  if margin = .empty && startsWithMark documentStart cs then
    some (skipMargin .used (cs.drop documentStart.length)).2
  else if isFirst then some cs else none

/-- The documents of a stream from some place on. No more of them than `bound` are read, and no more than that many
    containers are open at a time. -/
def readDocuments? (bound : Nat) (isFirst : Bool) (margin : Margin) (cs : List Char) :
    Nat → Option (List Yaml)
  | 0 => none
  | count + 1 =>
    let (margin, cs) := skipMargin margin cs
    if cs.isEmpty then some []
    else do
      let cs ← skipStart? isFirst margin cs
      let (document, rest) ← readNode? bound bound cs
      let others ← readDocuments? bound false .used rest count
      return document :: others

/-- The documents of a stream. A byte order mark in front of the text does not count. -/
def readStream? (text : String) : Option (List Yaml) :=
  let cs := text.toList
  let cs := unifyBreaks (if cs.head? = some byteOrderMark then cs.tail else cs)
  if cs.all isCharacter then readDocuments? cs.length true .empty cs (cs.length + 1) else none

/-! ## Records in YAML
   A record is a mapping in which no field is repeated. A text may be written without quotes and is then what was written;
   what is data has its usual meaning. Containers that are looked into nest up to a limit, and a `Cursor` counts how many
   of them may still be opened. -/

mutual

/-- The data that a node stands for, with no more than the given number of containers open at a time. -/
def toJson? (nesting : Nat) (node : Yaml) : Option Json :=
  match node with
  | .word text => wordJson? text
  | .quoted text => some (.string text)
  | .sequence items =>
    match nesting with
    | 0 => none
    | nesting + 1 => (itemsToJson? nesting items).map .array
  | .mapping members =>
    match nesting with
    | 0 => none
    | nesting + 1 => (membersToJson? nesting members).map fun pairs => .object (Json.collectMembers pairs)
termination_by structural node

def itemsToJson? (nesting : Nat) : List Yaml → Option (List Json)
  | [] => some []
  | item :: rest => do
    let first ← toJson? nesting item
    let others ← itemsToJson? nesting rest
    return first :: others
termination_by structural items => items

def membersToJson? (nesting : Nat) : List (String × Yaml) → Option (List (String × Json))
  | [] => some []
  | (name, item) :: rest => do
    let first ← toJson? nesting item
    let others ← membersToJson? nesting rest
    return (name, first) :: others
termination_by structural members => members

end

/-- A node, and how many containers may be open from it on downwards. -/
structure Cursor where
  node : Yaml
  nesting : Nat

namespace Cursor

def nestingLimit : Nat := 128

def ofDocument (document : Yaml) : Cursor :=
  ⟨document, nestingLimit⟩

def isDistinct (names : List String) : Bool :=
  decide names.Nodup

/-- The members of a mapping that is a record. No field may be repeated; other members may. -/
def fields? (names : List String) : Cursor → Option (List (String × Cursor))
  | ⟨.mapping members, nesting + 1⟩ =>
    if isDistinct ((members.map (·.1)).filter names.contains) then
      some (members.map fun (name, node) => (name, ⟨node, nesting⟩))
    else none
  | _ => none

def items? : Cursor → Option (List Cursor)
  | ⟨.sequence items, nesting + 1⟩ => some (items.map fun node => ⟨node, nesting⟩)
  | _ => none

def isNull : Cursor → Bool
  | ⟨.word text, _⟩ => isNullWord text
  | _ => false

/-- The text of a text or a word. -/
def text? : Cursor → Option String
  | ⟨.word text, _⟩ => some text
  | ⟨.quoted text, _⟩ => some text
  | _ => none

def bool? : Cursor → Option Bool
  | ⟨.word text, _⟩ => wordBool? text
  | _ => none

def json? (cursor : Cursor) : Option Json :=
  cursor.node.toJson? cursor.nesting

instance : RecordSource Cursor where
  fields? := fields?
  items? := items?
  isNull := isNull
  text? := text?
  bool? := bool?
  choice? := text?
  json? := json?

end Cursor

end Yaml

end Conform

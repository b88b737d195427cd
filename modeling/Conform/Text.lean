/- Texts as lists of characters. A character is blank when it has the Unicode property White_Space: 25 code points in ten
   ranges, the same set since Unicode 6.3. A text with n separators is cut into n + 1 parts, of which some may be empty,
   and joining the parts gives the text back. A reader takes a piece off the front of a text and gives it with the rest;
   `readEnclosed?` reads lists between brackets for any format, and escapes are those of all formats with quotes: a
   backslash in front of a letter, or in front of `u` and four hexadecimal digits for a code unit of 16 bits. -/
namespace Conform.Text

/-! ## White space -/

/-- The closed ranges of the White_Space code points, ascending and apart. -/
def blankRanges : List (Nat × Nat) :=
  [(0x09, 0x0D), (0x20, 0x20), (0x85, 0x85), (0xA0, 0xA0), (0x1680, 0x1680), (0x2000, 0x200A),
   (0x2028, 0x2029), (0x202F, 0x202F), (0x205F, 0x205F), (0x3000, 0x3000)]

def isBlank (c : Char) : Bool :=
  blankRanges.any fun r => r.1 ≤ c.toNat && c.toNat ≤ r.2

/-- The characters without the blanks at either end. -/
def trimChars (cs : List Char) : List Char :=
  ((cs.dropWhile isBlank).reverse.dropWhile isBlank).reverse

def trim (s : String) : String :=
  String.ofList (trimChars s.toList)

theorem mem_of_mem_trimChars {c : Char} {cs : List Char} (h : c ∈ trimChars cs) : c ∈ cs := by
  have hback := (List.dropWhile_sublist isBlank).mem (List.mem_reverse.1 h)
  exact (List.dropWhile_sublist isBlank).mem (List.mem_reverse.1 hback)

/-! ## Cutting at a separator -/

/-- The parts of a text between the separators, in order. There is always at least one part. -/
def splitChars (sep : Char) : List Char → List (List Char)
  | [] => [[]]
  | c :: cs =>
    if c = sep then [] :: splitChars sep cs
    else match splitChars sep cs with
      | [] => [[c]]
      | part :: parts => (c :: part) :: parts

/-- What stands before and after the first separator, if there is one. -/
def splitOnceChars (sep : Char) : List Char → Option (List Char × List Char)
  | [] => none
  | c :: cs =>
    if c = sep then some ([], cs)
    else (splitOnceChars sep cs).map fun (head, rest) => (c :: head, rest)

def split (sep : Char) (s : String) : List String :=
  (splitChars sep s.toList).map String.ofList

def splitOnce (sep : Char) (s : String) : Option (String × String) :=
  (splitOnceChars sep s.toList).map fun (head, rest) => (String.ofList head, String.ofList rest)

def occursChars (needle : List Char) : List Char → Bool
  | [] => needle.isEmpty
  | c :: cs => needle.isPrefixOf (c :: cs) || occursChars needle cs

/-- The needle stands somewhere in the text; the empty needle stands in every text. -/
def occurs (needle text : String) : Bool :=
  occursChars needle.toList text.toList

theorem splitChars_ne_nil (sep : Char) (cs : List Char) : splitChars sep cs ≠ [] := by
  cases cs with
  | nil => simp [splitChars]
  | cons c cs =>
    simp only [splitChars]
    split
    · simp
    · split <;> simp

theorem split_ne_nil (sep : Char) (s : String) : split sep s ≠ [] := by
  rw [split, ne_eq, List.map_eq_nil_iff]
  exact splitChars_ne_nil sep s.toList

/-- Putting the separator back between the parts gives the text. -/
theorem intercalate_splitChars (sep : Char) (cs : List Char) :
    [sep].intercalate (splitChars sep cs) = cs := by
  induction cs with
  | nil => simp [splitChars]
  | cons c cs ih =>
    have hne := splitChars_ne_nil sep cs
    obtain ⟨part, parts, h⟩ := List.exists_cons_of_ne_nil hne
    simp only [splitChars, h] at ih ⊢
    split
    · next hc => subst hc; simp [List.intercalate_cons_cons, ih]
    · cases parts with
      | nil => simpa using ih
      | cons p ps => simpa [List.intercalate_cons_cons] using ih

theorem not_mem_of_mem_splitChars {sep : Char} {cs part : List Char}
    (h : part ∈ splitChars sep cs) : sep ∉ part := by
  induction cs generalizing part with
  | nil => simp [splitChars] at h; simp [h]
  | cons c cs ih =>
    simp only [splitChars] at h
    split at h
    · rcases List.mem_cons.1 h with rfl | h
      · simp
      · exact ih h
    · next hc =>
      obtain ⟨p, ps, hp⟩ := List.exists_cons_of_ne_nil (splitChars_ne_nil sep cs)
      rw [hp] at h
      rcases List.mem_cons.1 h with rfl | h
      · have : sep ∉ p := ih (by simp [hp])
        simp only [List.mem_cons, not_or]
        exact ⟨fun e => hc e.symm, this⟩
      · exact ih (by simp [hp, h])

theorem splitChars_of_notMem {sep : Char} {cs : List Char} (h : sep ∉ cs) : splitChars sep cs = [cs] := by
  induction cs with
  | nil => rfl
  | cons c cs ih =>
    obtain ⟨hc, hcs⟩ := List.ne_and_not_mem_of_not_mem_cons h
    rw [splitChars, if_neg (Ne.symm hc), ih hcs]

theorem split_of_notMem {sep : Char} {s : String} (h : sep ∉ s.toList) : split sep s = [s] := by
  rw [split, splitChars_of_notMem h, List.map_singleton, String.ofList_toList]

/-- The search finds the needle wherever it stands. -/
theorem occursChars_iff {needle cs : List Char} : occursChars needle cs = true ↔ needle <:+: cs := by
  induction cs with
  | nil => rw [occursChars, List.isEmpty_iff, List.infix_nil]
  | cons c cs ih => rw [occursChars, Bool.or_eq_true, List.isPrefixOf_iff_prefix, ih, List.infix_cons_iff]

theorem occurs_iff {needle text : String} : occurs needle text = true ↔ needle.toList <:+: text.toList :=
  occursChars_iff

/-! ## Lists between brackets -/

section
variable {α : Type}

/-- Items with commas between them up to the closing character. There is at least one, and there are no more than
    the bound. -/
def readItems? (skip : List Char → List Char) (item : List Char → Option (α × List Char)) (close : Char) :
    Nat → List Char → Option (List α × List Char)
  | 0, _ => none
  | bound + 1, cs => do
    let (first, rest) ← item (skip cs)
    match skip rest with
    | [] => none
    | c :: rest =>
      if c = close then return ([first], rest)
      else if c = ',' then
        let (others, rest) ← readItems? skip item close bound rest
        return (first :: others, rest)
      else none

/-- The inside of a container, which may be empty, and its closing character. -/
def readEnclosed? (skip : List Char → List Char) (item : List Char → Option (α × List Char)) (close : Char)
    (bound : Nat) (cs : List Char) : Option (List α × List Char) :=
  match skip cs with
  | [] => none
  | c :: rest => if c = close then some ([], rest) else readItems? skip item close bound (c :: rest)

end

/-! ## Escapes inside quotes -/

def hexDigit? (c : Char) : Option Nat :=
  if '0' ≤ c ∧ c ≤ '9' then some (c.toNat - '0'.toNat)
  else if 'a' ≤ c ∧ c ≤ 'f' then some (c.toNat - 'a'.toNat + 10)
  else if 'A' ≤ c ∧ c ≤ 'F' then some (c.toNat - 'A'.toNat + 10)
  else none

def codeUnit? (a b c d : Char) : Option Nat := do
  let a ← hexDigit? a
  let b ← hexDigit? b
  let c ← hexDigit? c
  let d ← hexDigit? d
  return ((a * 16 + b) * 16 + c) * 16 + d

/-- The character that stands behind a backslash for another one. -/
def unescape? : Char → Option Char
  | '"' => some '"'
  | '\\' => some '\\'
  | '/' => some '/'
  | 'b' => some '\x08'
  | 'f' => some '\x0c'
  | 'n' => some '\n'
  | 'r' => some '\r'
  | 't' => some '\t'
  | _ => none

/-- The code unit is one half of a pair. -/
def isSurrogate (unit : Nat) : Bool :=
  0xD800 ≤ unit && unit < 0xE000

/-- The character that a code unit stands for alone. -/
def ofUnit? (unit : Nat) : Option Char :=
  if isSurrogate unit then none else some (Char.ofNat unit)

/-- The character that a pair of code units stands for. -/
def ofUnitPair? (high low : Nat) : Option Char :=
  if 0xD800 ≤ high ∧ high < 0xDC00 ∧ 0xDC00 ≤ low ∧ low < 0xE000 then
    some (Char.ofNat (0x10000 + (high - 0xD800) * 0x400 + (low - 0xDC00)))
  else none

end Conform.Text

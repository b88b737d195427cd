/- Decimals and numerals. A decimal is a natural number of digits scaled by a power of ten; `DecimalStyle` collects the
   decisions of an output format, and `DecimalStyle.write` lays out a decimal by them, either positionally or with an
   exponent. A numeral is what was written: a sign, digits, perhaps a point with digits after it, and perhaps an exponent
   with a sign and digits of its own. `Numeral.read?` takes the longest numeral off the front of a text; which digits may
   be missing is for the format that uses it to say. -/
namespace Conform

/-- The number `digits * 10 ^ exponent`. -/
structure Decimal where
  digits : Nat
  exponent : Int
  deriving DecidableEq, Repr, Inhabited

/-- Which of two equally close decimals is taken. -/
inductive Tie where
  | toEven
  | awayFromZero
  deriving DecidableEq, Repr

namespace Decimal

/-- Removes up to `fuel` trailing zeros from the digits. -/
def dropZeros : Nat → Decimal → Decimal
  | 0, d => d
  | fuel + 1, d =>
    if d.digits % 10 = 0 then dropZeros fuel ⟨d.digits / 10, d.exponent + 1⟩ else d

/-- The number of decimal digits; zero has one. -/
def digitCount (n : Nat) : Nat :=
  (Nat.toDigits 10 n).length

/-- The same number with no trailing zero among its digits; zero stays as it is. -/
def normalize (d : Decimal) : Decimal :=
  if d.digits = 0 then d else dropZeros (digitCount d.digits) d

end Decimal

/-- How numbers are written: positionally for magnitudes from `plainFrom` up to but not including
    `plainBelow`, otherwise as digits and a signed power of ten. -/
structure DecimalStyle where
  /-- The least magnitude written positionally. -/
  plainFrom : Decimal
  /-- The least magnitude beyond those written positionally. -/
  plainBelow : Decimal
  /-- Whole numbers get a fraction of one zero. -/
  pointZero : Bool
  /-- Which of two equally close shortest decimals is written. -/
  tie : Tie

namespace DecimalStyle

/-- Digits and a point: the point stands after `places` of them, zeros fill the gaps. -/
def writePlain (style : DecimalStyle) (digits : List Char) (places : Int) : String :=
  let whole := if places ≤ 0 then ['0'] else
    digits.take places.toNat ++ List.replicate (places.toNat - digits.length) '0'
  let fraction := List.replicate (-places).toNat '0' ++ digits.drop places.toNat
  if fraction.isEmpty then
    String.ofList whole ++ (if style.pointZero then ".0" else "")
  else String.ofList whole ++ "." ++ String.ofList fraction

/-- A leading digit, the others behind a point, and the power of ten with its sign. -/
def writeExponent (digits : List Char) (places : Int) : String :=
  let mantissa := match digits with
    | [] => "0"
    | [d] => String.ofList [d]
    | d :: rest => String.ofList (d :: '.' :: rest)
  let power := places - 1
  mantissa ++ (if power < 0 then "e-" else "e+") ++ toString power.natAbs

/-- Writes a decimal without trailing zeros, positionally or with an exponent. -/
def write (style : DecimalStyle) (plain : Bool) (d : Decimal) : String :=
  let digits := Nat.toDigits 10 d.digits
  let places := d.exponent + digits.length
  if plain then style.writePlain digits places else writeExponent digits places

end DecimalStyle

/-! ## Numerals -/

/-- The parts of a numeral as they were written. -/
structure Numeral where
  /-- The sign in front, `+` or `-`. -/
  sign : Option Char
  /-- The digits before the point. -/
  whole : List Char
  /-- The digits after the point, if a point was written. -/
  fraction : Option (List Char)
  /-- The power of ten, if one was written. -/
  power : Option Int
  deriving DecidableEq, Repr

namespace Numeral

def digitsValue (digits : List Char) : Nat :=
  digits.foldl (fun n c => 10 * n + (c.toNat - '0'.toNat)) 0

def readSign : List Char → Option Char × List Char
  | '+' :: rest => (some '+', rest)
  | '-' :: rest => (some '-', rest)
  | cs => (none, cs)

def readDigits (cs : List Char) : List Char × List Char :=
  (cs.takeWhile Char.isDigit, cs.dropWhile Char.isDigit)

/-- The point at the front of a text with the digits after it, and the rest. -/
def readFraction : List Char → Option (List Char) × List Char
  | '.' :: rest => let (digits, rest) := readDigits rest; (some digits, rest)
  | cs => (none, cs)

/-- The digits of an exponent with their sign. There has to be a digit. -/
def readPower? (cs : List Char) : Option (Int × List Char) :=
  let (sign, cs) := readSign cs
  let (digits, cs) := readDigits cs
  let size : Int := digitsValue digits
  if digits.isEmpty then none else some (if sign = some '-' then -size else size, cs)

/-- The exponent at the front of a text, and the rest. An `e` that no digits follow is a fault. -/
def readExponent? : List Char → Option (Option Int × List Char)
  | [] => some (none, [])
  | c :: rest =>
    if c = 'e' ∨ c = 'E' then (readPower? rest).map fun (power, rest) => (some power, rest)
    else some (none, c :: rest)

/-- The numeral at the front of a text, and the rest. Any of its digits before and after the point may be
    missing. -/
def read? (cs : List Char) : Option (Numeral × List Char) :=
  let (sign, cs) := readSign cs
  let (whole, cs) := readDigits cs
  let (fraction, cs) := readFraction cs
  (readExponent? cs).map fun (power, cs) => (⟨sign, whole, fraction, power⟩, cs)

def isNegative (n : Numeral) : Bool :=
  n.sign = some '-'

/-- Neither a point nor an exponent was written. -/
def isInteger (n : Numeral) : Bool :=
  n.fraction.isNone && n.power.isNone

def integer (n : Numeral) : Int :=
  if n.isNegative then -(digitsValue n.whole : Int) else digitsValue n.whole

def allDigits (n : Numeral) : List Char :=
  n.whole ++ n.fraction.getD []

def magnitude (n : Numeral) : Decimal :=
  ⟨digitsValue n.allDigits, n.power.getD 0 - (n.fraction.getD []).length⟩

/-! ## The leading digits
   A numeral has any number of digits; `leading` takes as many of them as stay below a bound. A digit of the whole part
   that is left out counts in the power of ten; one of the fraction is dropped. The whole part and the fraction are cut
   each on its own, so a small digit at the front of the fraction can still be taken where a large one at the end of the
   whole part was not. -/

/-- Puts digits behind a number as long as it stays below the bound. Gives the number and the digits left. -/
def takeDigits (bound : Nat) (n : Nat) : List Char → Nat × List Char
  | [] => (n, [])
  | c :: cs =>
    let next := 10 * n + (c.toNat - '0'.toNat)
    if next < bound then takeDigits bound next cs else (n, c :: cs)

/-- The decimal of the leading digits of a numeral, with digits below the bound. -/
def leading (bound : Nat) (n : Numeral) : Decimal :=
  let fraction := n.fraction.getD []
  let (whole, wholeLeft) := takeDigits bound 0 n.whole
  let (digits, fractionLeft) := takeDigits bound whole fraction
  ⟨digits, n.power.getD 0 + wholeLeft.length - (fraction.length - fractionLeft.length : Nat)⟩

end Numeral

end Conform

import Conform.Decimal
/- Binary floating-point numbers of 64 bits. A number is its bit pattern: a sign, an exponent field of 11 bits and a
   fraction of 52. Every finite number is a whole number of units of 2^-1074, the least positive one; `units` is that
   whole number, so order, wholeness and parity are arithmetic of naturals and no operation rounds. Rounding to the
   nearest number takes one division of naturals, and writing a number finds the shortest decimal that reads back.
   Powers are written as `Nat.pow`, which is one function whatever is imported. -/
namespace Conform

/-- A number given by its bits. Equality of this type tells the two zeros and all bit patterns of NaN apart;
    `Binary64.equal` is equality of numbers. -/
structure Binary64 where
  bits : UInt64
  deriving DecidableEq, Repr, Inhabited

namespace Binary64

def isNegative (x : Binary64) : Bool :=
  x.bits.toNat / Nat.pow 2 63 = 1

/-- The bits without the sign. They order the magnitudes. -/
def magnitude (x : Binary64) : Nat :=
  x.bits.toNat % Nat.pow 2 63

def exponentField (x : Binary64) : Nat :=
  x.magnitude / Nat.pow 2 52

def fraction (x : Binary64) : Nat :=
  x.magnitude % Nat.pow 2 52

def infinityMagnitude : Nat := 2047 * Nat.pow 2 52

/-- Neither an infinity nor a NaN. -/
def isFinite (x : Binary64) : Bool :=
  x.magnitude < infinityMagnitude

def isInfinite (x : Binary64) : Bool :=
  x.magnitude = infinityMagnitude

def isNaN (x : Binary64) : Bool :=
  infinityMagnitude < x.magnitude

def isZero (x : Binary64) : Bool :=
  x.magnitude = 0

/-- The magnitude of a finite number, counted in units of 2^-1074. -/
def units (x : Binary64) : Nat :=
  if x.exponentField = 0 then x.fraction
  else (Nat.pow 2 52 + x.fraction) * Nat.pow 2 (x.exponentField - 1)

def unitsPerOne : Nat := Nat.pow 2 1074

def ofMagnitude (negative : Bool) (magnitude : Nat) : Binary64 :=
  ⟨UInt64.ofNat (magnitude + if negative then Nat.pow 2 63 else 0)⟩

def infinity (negative : Bool) : Binary64 :=
  ofMagnitude negative infinityMagnitude

/-- The NaN with the leading fraction bit set alone. -/
def nan : Binary64 :=
  ofMagnitude false (infinityMagnitude + Nat.pow 2 51)

/-- Equality of numbers: the two zeros are equal, and a NaN equals nothing. -/
def equal (x y : Binary64) : Bool :=
  !x.isNaN && !y.isNaN && (x.bits = y.bits || (x.isZero && y.isZero))

/-- Above zero; infinity is, a NaN is not. -/
def isPositive (x : Binary64) : Bool :=
  !x.isNaN && !x.isZero && !x.isNegative

/-- Finite and without a fractional part. -/
def isWhole (x : Binary64) : Bool :=
  x.isFinite && x.units % unitsPerOne = 0

/-- The remainder of the division by two is zero. -/
def isEven (x : Binary64) : Bool :=
  x.isFinite && x.units % (2 * unitsPerOne) = 0

/-- The remainder of the division of the magnitude by two is one. -/
def isOdd (x : Binary64) : Bool :=
  x.isFinite && x.units % (2 * unitsPerOne) = unitsPerOne

/-! ## The nearest number
   The magnitude bits come from one division: a quotient of at most 53 bits is its own bit pattern, and each bit more
   raises the exponent field by one. Ties go to the even bit pattern. Overflow gives an infinity, underflow a zero. -/

/-- The quotient rounded to the nearest natural, a half to the even one. -/
def divToEven (num den : Nat) : Nat :=
  let quotient := num / den
  let rest := num % den
  if 2 * rest < den then quotient
  else if den < 2 * rest then quotient + 1
  else if quotient % 2 = 0 then quotient else quotient + 1

/-- The magnitude bits of the number nearest to `num / den`. -/
def nearestMagnitude (num den : Nat) : Nat :=
  let scaled := num * unitsPerOne
  -- how many bits the quotient has beyond the 53 of a significand
  let shift := (scaled / den).log2 + 1 - 53
  min (shift * Nat.pow 2 52 + divToEven scaled (den * Nat.pow 2 shift)) infinityMagnitude

/-- The number nearest to a decimal. Decimals from 10^310 are infinite and those below 10^-330 are zero,
    which also bounds the powers of ten that have to be computed. -/
def ofDecimal (negative : Bool) (d : Decimal) : Binary64 :=
  let scale := d.exponent + Decimal.digitCount d.digits
  let magnitude :=
    if d.digits = 0 ∨ scale < -330 then 0
    else if 310 < scale then infinityMagnitude
    else nearestMagnitude (d.digits * Nat.pow 10 d.exponent.toNat) (Nat.pow 10 (-d.exponent).toNat)
  ofMagnitude negative magnitude

/-- The number nearest to an integer. Zero is positive. -/
def ofInt (n : Int) : Binary64 :=
  ofMagnitude (n < 0) (nearestMagnitude n.natAbs 1)

/-! ## Scaling by powers of ten
   Products and quotients are exact in naturals and rounded once. `ofScaled?` takes one such step, or two where the power
   is too small for a single one; as the power itself is rounded too, the result may be a neighbour of the nearest
   number. -/

/-- The product of the magnitudes of two finite numbers. -/
def product (x y : Binary64) : Binary64 :=
  ofMagnitude false (nearestMagnitude (x.units * y.units) (unitsPerOne * unitsPerOne))

/-- The quotient of the magnitudes of two finite numbers, the second of which is not zero. -/
def quotient (x y : Binary64) : Binary64 :=
  ofMagnitude false (nearestMagnitude x.units y.units)

/-- The largest power of ten that is finite. -/
def maxPowerOfTen : Nat := 308

def powerOfTen (n : Nat) : Binary64 :=
  ofMagnitude false (nearestMagnitude (Nat.pow 10 n) 1)

/-- A number times a power of ten; nothing if the result is too large. -/
def scaleUp? (x : Binary64) (n : Nat) : Option Binary64 :=
  if x.isZero then some x
  else if maxPowerOfTen < n then none
  else
    let scaled := x.product (powerOfTen n)
    if scaled.isFinite then some scaled else none

/-- A number divided by a power of ten. A power beyond the largest one is divided by in two steps, and two of the largest
    leave nothing of any number below 2^64. -/
def scaleDown (x : Binary64) (n : Nat) : Binary64 :=
  if n ≤ maxPowerOfTen then x.quotient (powerOfTen n)
  else if n ≤ 2 * maxPowerOfTen then
    (x.quotient (powerOfTen maxPowerOfTen)).quotient (powerOfTen (n - maxPowerOfTen))
  else ofMagnitude false 0

/-- A decimal whose digits are below 2^64, by its digits rounded and then scaled; nothing if it is too large. -/
def ofScaled? (negative : Bool) (d : Decimal) : Option Binary64 :=
  let x := ofMagnitude false (nearestMagnitude d.digits 1)
  let scaled := if 0 ≤ d.exponent then x.scaleUp? d.exponent.toNat else some (x.scaleDown (-d.exponent).toNat)
  scaled.map fun y => ofMagnitude negative y.magnitude

/-! ## The shortest decimal
   For one digit, two digits and so on up to seventeen, the two neighbours of the number on the grid of that many digits
   are read back; the first grid with a hit wins, and of two hits the closer. A tie between the two goes by the style.
   Should no grid have a hit, the exact decimal value is taken, so the result reads back in every case. -/

/-- Reading the decimal gives the magnitude of the number. -/
def readsBack (x : Binary64) (d : Decimal) : Bool :=
  (ofDecimal false d).magnitude = x.magnitude

/-- The least power of ten above the magnitude of a finite number that is not zero. -/
def decimalPlaces (x : Binary64) : Int :=
  (Decimal.digitCount (x.units * Nat.pow 10 400 / unitsPerOne) : Int) - 400

/-- The greatest multiple of the power of ten that is not above the magnitude. -/
def gridFloor (x : Binary64) (exponent : Int) : Nat :=
  x.units * Nat.pow 10 (-exponent).toNat / (unitsPerOne * Nat.pow 10 exponent.toNat)

/-- Where the magnitude lies relative to the middle between two neighbours on a grid. -/
def compareMiddle (x : Binary64) (floor : Nat) (exponent : Int) : Ordering :=
  compare (2 * x.units * Nat.pow 10 (-exponent).toNat)
    ((2 * floor + 1) * (unitsPerOne * Nat.pow 10 exponent.toNat))

/-- Of the two neighbours on the grid of a power of ten, the one that reads back; if both do, the closer. -/
def onGrid? (tie : Tie) (x : Binary64) (exponent : Int) : Option Decimal :=
  let floor := x.gridFloor exponent
  let below : Decimal := ⟨floor, exponent⟩
  let above : Decimal := ⟨floor + 1, exponent⟩
  match x.readsBack below, x.readsBack above with
  | false, false => none
  | true, false => some below
  | false, true => some above
  | true, true => match x.compareMiddle floor exponent with
    | .lt => some below
    | .gt => some above
    | .eq => match tie with
      | .toEven => some (if floor % 2 = 0 then below else above)
      | .awayFromZero => some above

def exactDecimal (x : Binary64) : Decimal :=
  ⟨x.units * Nat.pow 5 1074, -1074⟩

/-- The decimal with the fewest digits that reads back as the magnitude of a finite number. -/
def shortest (tie : Tie) (x : Binary64) : Decimal :=
  if x.isZero then ⟨0, 0⟩
  else
    let places := x.decimalPlaces
    let found := (List.range 17).findSome? fun n => x.onGrid? tie (places - (n + 1 : Nat))
    (found.getD x.exactDecimal).normalize

/-- The magnitude is written positionally in the style. -/
def isPlain (style : DecimalStyle) (x : Binary64) : Bool :=
  x.isZero ||
    ((ofDecimal false style.plainFrom).magnitude ≤ x.magnitude &&
      x.magnitude < (ofDecimal false style.plainBelow).magnitude)

/-- A finite number in the style: its sign, also that of zero, and its shortest decimal. -/
def write (style : DecimalStyle) (x : Binary64) : String :=
  (if x.isNegative then "-" else "") ++ style.write (x.isPlain style) (x.shortest style.tie)

end Binary64

end Conform

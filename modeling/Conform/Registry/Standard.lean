import Conform.Registry
import Conform.Decimal
import Conform.Binary64
/- The tests that are registered from the start. They classify values by presence, kind, content and size. -/
namespace Conform.Registry

/-- The text is a decimal numeral, perhaps between blanks, that stands for a finite number. A digit is needed on one
    side of the point at least. -/
def isNumericText (s : String) : Bool :=
  match Numeral.read? (Text.trimChars s.toList) with
  | some (n, []) =>
    !n.allDigits.isEmpty && (Binary64.ofDecimal n.isNegative n.magnitude).isFinite
  | _ => false

def onText (test : String → Bool) : Test :=
  fun v => v.text?.any test

def onNumber (test : Binary64 → Bool) : Test :=
  fun v => v.number?.any test

def onItems (test : List Value → Bool) : Test :=
  fun v => v.items?.any test

def onSize (test : Nat → Bool) : Test :=
  fun v => v.size?.any test

def ofKind (kinds : List String) : Test :=
  fun v => kinds.contains v.kind

/-- A value of one kind whose size passes a test. -/
def sizedKind (kind : String) (test : Nat → Bool) : Test :=
  fun v => ofKind [kind] v && onSize test v

def presenceTests : List (String × Test) :=
  [("any", fun _ => true),
   ("undefined", Value.isUndefined),
   ("null", Value.isNull),
   ("nil", fun v => v.isNull || v.isUndefined),
   ("defined", fun v => !v.isUndefined)]

/-- The tests of primitives. A NaN is no number, and the infinities are numbers that are not finite. -/
def primitiveTests : List (String × Test) :=
  [("boolean", ofKind ["boolean"]),
   ("number", onNumber fun n => !n.isNaN),
   ("integer", onNumber Binary64.isWhole),
   ("finite", onNumber Binary64.isFinite),
   ("bigint", ofKind ["bigint"]),
   ("string", ofKind ["string"]),
   ("symbol", ofKind ["symbol"]),
   ("primitive", Value.isPrimitive),
   ("numericString", onText isNumericText),
   ("emptyString", onText String.isEmpty),
   ("nonEmptyString", onText fun s => !s.isEmpty)]

def sequenceTests : List (String × Test) :=
  [("array", Value.isArray),
   ("emptyArray", onItems List.isEmpty),
   ("nonEmptyArray", onItems fun items => !items.isEmpty),
   ("iterable", ofKind ["string", "array", "set", "map"])]

/-- The tests of composites. An object is any composite; a plain one has no class of its own. -/
def compositeTests : List (String × Test) :=
  [("object", Value.isComposite),
   ("plainObject", Value.isPlain),
   ("emptyObject", fun v => v.isPlain && onSize (· = 0) v),
   ("nonEmptyObject", fun v => v.isPlain && onSize (0 < ·) v),
   ("regexp", ofKind ["regexp"]),
   ("error", ofKind ["error"]),
   ("promise", ofKind ["promise"]),
   ("set", ofKind ["set"]),
   ("emptySet", sizedKind "set" (· = 0)),
   ("nonEmptySet", sizedKind "set" (0 < ·)),
   ("map", ofKind ["map"]),
   ("emptyMap", sizedKind "map" (· = 0)),
   ("nonEmptyMap", sizedKind "map" (0 < ·))]

/-- The tests by size, by truth and of functions. -/
def generalTests : List (String × Test) :=
  [("empty", onSize (· = 0)),
   ("nonEmpty", onSize (0 < ·)),
   ("truthy", fun v => !v.isFalsy),
   ("falsy", Value.isFalsy),
   ("function", ofKind ["function"]),
   ("syncFunction", fun | .function _ async => !async | _ => false),
   ("asyncFunction", fun | .function _ async => async | _ => false)]

/-- The tests that are registered from the start. -/
def standardTests : List (String × Test) :=
  presenceTests ++ primitiveTests ++ sequenceTests ++ compositeTests ++ generalTests

def standard : Registry :=
  ofTable standardTests

/-- Tests of numbers: the whole numbers by parity, and the sign. -/
def numberTests : List (String × Test) :=
  [("even", onNumber Binary64.isEven),
   ("odd", onNumber Binary64.isOdd),
   ("positive", onNumber Binary64.isPositive)]

/-- The standard registry with the tests of numbers. -/
def numeric : Registry :=
  standard.extend numberTests

end Conform.Registry

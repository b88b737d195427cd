import Conform.Value
/- Equality of values: the same kind and equal contents. Numbers compare as numbers, so the zeros are equal and a NaN
   makes everything around it unequal to itself. Collections compare element by element in order, patterns by their
   source. -/
namespace Conform.Value

mutual

def equal : Value → Value → Bool
  | undefined, undefined | null, null | promise, promise => true
  | bool a, bool b => a = b
  | number a, number b => a.equal b
  | bigint a, bigint b => a = b
  | string a, string b => a = b
  | symbol a, symbol b => a = b
  | array a, array b => equalItems a b
  | object s a, object t b => s = t && equalFields a b
  | function m a, function n b => m = n && a = b
  | regex a, regex b => a = b
  | error m a, error n b => m = n && a = b
  | set a, set b => equalItems a b
  | map a, map b => equalEntries a b
  | _, _ => false
termination_by structural a => a

def equalItems : List Value → List Value → Bool
  | [], [] => true
  | a :: as, b :: bs => equal a b && equalItems as bs
  | _, _ => false
termination_by structural as => as

/-- The two tables have the same names with equal values. -/
def equalFields : List (String × Value) → List (String × Value) → Bool
  | [], [] => true
  | (m, a) :: as, (n, b) :: bs => m = n && equal a b && equalFields as bs
  | _, _ => false
termination_by structural as => as

/-- The two maps have equal keys with equal values in the same order. -/
def equalEntries : List (Value × Value) → List (Value × Value) → Bool
  | [], [] => true
  | (j, a) :: as, (k, b) :: bs => equal j k && equal a b && equalEntries as bs
  | _, _ => false
termination_by structural as => as

end

end Conform.Value

import Mathlib.Logic.Relation
import Conform.Value
/- What is reached from a value through the fields of objects, and what stands at the end of given keys. A property of
   all keys that are met on the way is had by a value if the keys of its own fields have it and the values in them have it
   for theirs (`everyKey_iff`). -/
namespace Conform.Value

def HasField (v w : Value) : Prop :=
  ∃ entry ∈ v.fields, entry.2 = w

/-- The other value is the value itself, or is reached from it through the fields of objects. -/
def Reaches : Value → Value → Prop :=
  Relation.ReflTransGen HasField

/-- The property is had by every key of the value and of the objects that are reached from it through fields. -/
def EveryKey (K : String → Prop) (v : Value) : Prop :=
  ∀ w, v.Reaches w → ∀ entry ∈ w.fields, K entry.1

/-- What stands at the end of keys, gone through from the outside to the inside. -/
def descend? (v : Value) : List String → Option Value
  | [] => some v
  | key :: keys => (v.field? key).bind fun x => descend? x keys

variable {K : String → Prop} {v : Value}

theorem everyKey_iff : v.EveryKey K ↔ ∀ entry ∈ v.fields, K entry.1 ∧ entry.2.EveryKey K := by
  constructor
  · intro h entry hentry
    exact ⟨h v .refl entry hentry, fun w hw => h w (hw.head ⟨entry, hentry, rfl⟩)⟩
  · intro h w hw
    rcases hw.cases_head with rfl | ⟨x, ⟨entry, hentry, rfl⟩, hx⟩
    · exact fun entry hentry => (h entry hentry).1
    · exact (h entry hentry).2 w hx

theorem fields_of_not_isObject (h : v.isObject = false) : v.fields = [] := by
  cases v with
  | object tag fields => cases h
  | _ => rfl

theorem everyKey_of_not_isObject (h : v.isObject = false) : v.EveryKey K := by
  rw [everyKey_iff, fields_of_not_isObject h]
  exact nofun

mutual

/-- Goes through the keys that are reached. -/
def everyKey (K : String → Prop) [DecidablePred K] : Value → Bool
  | object _ fields => everyKeyOf K fields
  | _ => true

def everyKeyOf (K : String → Prop) [DecidablePred K] : List (String × Value) → Bool
  | [] => true
  | (key, v) :: rest => decide (K key) && everyKey K v && everyKeyOf K rest

end

section
variable [DecidablePred K]

theorem everyKeyOf_eq_true_iff {fields : List (String × Value)} :
    everyKeyOf K fields = true ↔ ∀ entry ∈ fields, K entry.1 ∧ everyKey K entry.2 = true := by
  induction fields with
  | nil => simp [everyKeyOf]
  | cons entry rest ih => simp [everyKeyOf, ih]

theorem everyKey_eq_true_iff : everyKey K v = true ↔ v.EveryKey K := by
  induction v using inductionOnFields with
  | other v hobject =>
    refine iff_of_true ?_ (everyKey_of_not_isObject hobject)
    cases v with
    | object tag fields => cases hobject
    | _ => rfl
  | object tag fields ih =>
    rw [everyKey, everyKeyOf_eq_true_iff, everyKey_iff]
    exact forall₂_congr fun entry hentry => and_congr_right fun _ => ih entry hentry

instance (v : Value) : Decidable (v.EveryKey K) :=
  decidable_of_iff _ everyKey_eq_true_iff

end

theorem descend?_cons (v : Value) (key : String) (keys : List String) :
    v.descend? (key :: keys) = (v.field? key).bind fun x => x.descend? keys := rfl

theorem exists_object_of_descend? {head rest : String} {x : Value} (h : v.descend? [head, rest] = some x) :
    ∃ tag inner, v.field? head = some (object tag inner) ∧ Entries.find? rest inner = some x := by
  obtain ⟨w, hw, hinner⟩ := Option.bind_eq_some_iff.1 h
  obtain ⟨y, hy, hx⟩ := Option.bind_eq_some_iff.1 hinner
  cases hx
  cases w with
  | object tag inner => exact ⟨tag, inner, hw, hy⟩
  | _ => cases hy

/-- The keys on the way to a value that is found are keys of objects that are reached. -/
theorem exists_reaches_of_descend? {keys : List String} {x : Value} (h : v.descend? keys = some x) {key : String}
    (hkey : key ∈ keys) : ∃ w, v.Reaches w ∧ ∃ entry ∈ w.fields, entry.1 = key := by
  induction keys generalizing v with
  | nil => cases hkey
  | cons first keys ih =>
    rw [descend?_cons] at h
    obtain ⟨y, hy, hx⟩ := Option.bind_eq_some_iff.1 h
    have hmem : (first, y) ∈ v.fields := Entries.mem_of_find? hy
    rcases List.mem_cons.1 hkey with rfl | hkey
    · exact ⟨v, .refl, _, hmem, rfl⟩
    · obtain ⟨w, hw, hentry⟩ := ih hx hkey
      exact ⟨w, hw.head ⟨_, hmem, rfl⟩, hentry⟩

end Conform.Value

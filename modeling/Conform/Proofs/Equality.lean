import Mathlib.Data.List.Forall2
import Mathlib.Logic.Relation
import Conform.Value.Equality
/- Equality of values as a relation. Two numbers are equal if neither is a NaN and they are one number but for the sign of
   a zero; `normal` takes that sign off, wherever in a value the zero stands. Values are equal exactly if there is no NaN
   in them and they have the same normal form (`equal_iff`): equality holds between the values that a partial function
   takes to one result, so that it is symmetric and transitive, and reflexive where this function is defined
   (`equality_fails_at_nan_alone`). -/
namespace Conform

/-! ## Numbers -/

namespace Binary64

/-- The number, with the positive zero for either zero. -/
def normal (x : Binary64) : Binary64 :=
  if x.isZero then ofMagnitude false 0 else x

theorem isZero_ofMagnitude_zero : (ofMagnitude false 0).isZero = true := by decide

theorem isNaN_of_isZero {x : Binary64} (h : x.isZero = true) : x.isNaN = false := by
  rw [isZero, decide_eq_true_eq] at h
  rw [isNaN, h]
  rfl

theorem isNaN_normal (x : Binary64) : x.normal.isNaN = x.isNaN := by
  rw [normal]
  split
  · next hzero => rw [isNaN_of_isZero isZero_ofMagnitude_zero, isNaN_of_isZero hzero]
  · rfl

/-- The zeros have one normal form, and every other number has its own. -/
theorem normal_eq_normal_iff {x y : Binary64} : x.normal = y.normal ↔ x = y ∨ (x.isZero = true ∧ y.isZero = true) := by
  constructor
  · intro h
    rw [normal, normal] at h
    split at h
    · next hx =>
      split at h
      · next hy => exact .inr ⟨hx, hy⟩
      · -- a number that is no zero is not the positive zero
        next hy => exact absurd (h ▸ isZero_ofMagnitude_zero) hy
    · next hx =>
      split at h
      · exact absurd (h.symm ▸ isZero_ofMagnitude_zero) hx
      · exact .inl h
  · rintro (rfl | ⟨hx, hy⟩)
    · rfl
    · rw [normal, normal, if_pos hx, if_pos hy]

theorem equal_iff {x y : Binary64} : x.equal y = true ↔ x.isNaN = false ∧ x.normal = y.normal := by
  have hbits : x.bits = y.bits ↔ x = y := by
    cases x; cases y; rw [mk.injEq]
  rw [equal, Bool.and_eq_true, Bool.and_eq_true, Bool.not_eq_true', Bool.not_eq_true', Bool.or_eq_true,
    decide_eq_true_eq, Bool.and_eq_true, hbits, ← normal_eq_normal_iff, and_assoc]
  refine and_congr_right fun hx => and_iff_right_of_imp fun h => ?_
  rw [← isNaN_normal, ← h, isNaN_normal, hx]

end Binary64

namespace Value

/-! ## Values inside values -/

/-- The values that stand in a value: elements, values of fields, and keys and values of entries. -/
def inside : Value → List Value
  | array items | set items => items
  | object _ fields => fields.map (·.2)
  | map entries => entries.flatMap fun entry => [entry.1, entry.2]
  | _ => []

/-- The other value is the value itself or occurs in it at any depth. -/
def Contains : Value → Value → Prop :=
  Relation.ReflTransGen fun v w => w ∈ v.inside

/-- No number in the value is a NaN. -/
def NaNFree (v : Value) : Prop :=
  ∀ n, v.Contains (number n) → n.isNaN = false

theorem inductionInside {motive : Value → Prop} (step : ∀ v, (∀ w ∈ v.inside, motive w) → motive v) (v : Value) :
    motive v :=
  have leaf {v : Value} (h : v.inside = []) : motive v := step v (h ▸ nofun)
  @Value.rec motive (fun items => ∀ x ∈ items, motive x) (fun fields => ∀ x ∈ (object none fields).inside, motive x)
    (fun entries => ∀ x ∈ (map entries).inside, motive x)
    (fun field => motive field.2) (fun entry => motive entry.1 ∧ motive entry.2)
    (leaf rfl) (leaf rfl) (fun _ => leaf rfl) (fun _ => leaf rfl) (fun _ => leaf rfl) (fun _ => leaf rfl)
    (fun _ => leaf rfl) (fun items ih => step (array items) ih) (fun tag fields ih => step (object tag fields) ih)
    (fun _ _ => leaf rfl) (fun _ => leaf rfl) (fun _ _ => leaf rfl) (leaf rfl)
    (fun items ih => step (set items) ih) (fun entries ih => step (map entries) ih)
    nofun (fun _ _ hx hrest => List.forall_mem_cons.2 ⟨hx, hrest⟩)
    nofun (fun _ _ hx hrest => List.forall_mem_cons.2 ⟨hx, hrest⟩)
    nofun (fun _ _ hx hrest => List.forall_mem_cons.2 ⟨hx.1, List.forall_mem_cons.2 ⟨hx.2, hrest⟩⟩)
    (fun _ _ hv => hv) (fun _ _ hj hk => ⟨hj, hk⟩) v

theorem forall_inside_object {P : Value → Prop} {tag : Option String} {fields : List (String × Value)} :
    (∀ w ∈ (object tag fields).inside, P w) ↔ ∀ field ∈ fields, P field.2 :=
  List.forall_mem_map

theorem forall_inside_map {P : Value → Prop} {entries : List (Value × Value)} :
    (∀ w ∈ (map entries).inside, P w) ↔ ∀ entry ∈ entries, P entry.1 ∧ P entry.2 := by
  simp only [inside, List.forall_mem_flatMap, List.forall_mem_cons]
  simp

theorem nanFree_iff {v : Value} :
    v.NaNFree ↔ (∀ n, v = number n → n.isNaN = false) ∧ ∀ w ∈ v.inside, w.NaNFree := by
  constructor
  · intro h
    exact ⟨fun n hn => h n (hn ▸ .refl), fun w hw n hn => h n (hn.head hw)⟩
  · rintro ⟨hself, hinside⟩ n hn
    rcases hn.cases_head with hn | ⟨w, hw, hwn⟩
    · exact hself n hn
    · exact hinside w hw n hwn

theorem nanFree_number {n : Binary64} : (number n).NaNFree ↔ n.isNaN = false := by
  rw [nanFree_iff]
  simp [inside]

theorem nanFree_of_number?_eq_none {v : Value} (h : v.number? = none) :
    v.NaNFree ↔ ∀ w ∈ v.inside, w.NaNFree := by
  rw [nanFree_iff, and_iff_right]
  rintro n rfl
  cases h

/-! ## Normal forms -/

mutual

/-- The value, with the positive zero for every zero in it. -/
def normal : Value → Value
  | number n => number n.normal
  | array items => array (normalItems items)
  | object tag fields => object tag (normalFields fields)
  | set items => set (normalItems items)
  | map entries => map (normalEntries entries)
  | v => v

def normalItems : List Value → List Value
  | [] => []
  | v :: rest => normal v :: normalItems rest

def normalFields : List (String × Value) → List (String × Value)
  | [] => []
  | (name, v) :: rest => (name, normal v) :: normalFields rest

def normalEntries : List (Value × Value) → List (Value × Value)
  | [] => []
  | (k, v) :: rest => (normal k, normal v) :: normalEntries rest

end

theorem normalItems_eq (items : List Value) : normalItems items = items.map normal := by
  induction items with
  | nil => rfl
  | cons v rest ih => rw [normalItems, ih, List.map_cons]

theorem normalFields_eq (fields : List (String × Value)) :
    normalFields fields = fields.map fun field => (field.1, field.2.normal) := by
  induction fields with
  | nil => rfl
  | cons field rest ih => rw [normalFields, ih, List.map_cons]

theorem normalEntries_eq (entries : List (Value × Value)) :
    normalEntries entries = entries.map fun entry => (entry.1.normal, entry.2.normal) := by
  induction entries with
  | nil => rfl
  | cons entry rest ih => rw [normalEntries, ih, List.map_cons]

theorem kind_normal (v : Value) : v.normal.kind = v.kind := by
  cases v <;> rfl

theorem inside_normal (v : Value) : v.normal.inside = v.inside.map normal := by
  cases v with
  | array items | set items => exact normalItems_eq items
  | object tag fields =>
    rw [normal, inside, inside, normalFields_eq, List.map_map, List.map_map]
    rfl
  | map entries =>
    rw [normal, inside, inside, normalEntries_eq, List.flatMap_map, List.map_flatMap]
    rfl
  | _ => rfl

/-- Taking off signs makes no NaN and takes none away. -/
theorem nanFree_normal (v : Value) : v.normal.NaNFree ↔ v.NaNFree := by
  induction v using inductionInside with
  | step v ih =>
    have hinside : (∀ w ∈ v.normal.inside, w.NaNFree) ↔ ∀ w ∈ v.inside, w.NaNFree := by
      rw [inside_normal, List.forall_mem_map]
      exact forall₂_congr ih
    cases hnumber : v.number? with
    | none =>
      have hnormal : v.normal.number? = none := by cases v <;> first | rfl | cases hnumber
      rw [nanFree_of_number?_eq_none hnormal, nanFree_of_number?_eq_none hnumber, hinside]
    | some n =>
      cases v with
      | number n => rw [normal, nanFree_number, nanFree_number, Binary64.isNaN_normal]
      | _ => cases hnumber

/-! ## Equality by normal forms -/

/-- The value equals those that have its normal form, or nothing if there is a NaN in it. -/
def ComparedByNormal (a : Value) : Prop :=
  ∀ b, a.equal b = true ↔ a.NaNFree ∧ a.normal = b.normal

/-- Where a relation asks something of the first of two elements and one image of both, it asks the same of lists. -/
theorem forall₂_iff_map_eq {α β : Type} {R : α → α → Prop} {P : α → Prop} {f : α → β} {as : List α}
    (h : ∀ a ∈ as, ∀ b, R a b ↔ P a ∧ f a = f b) (bs : List α) :
    List.Forall₂ R as bs ↔ (∀ a ∈ as, P a) ∧ as.map f = bs.map f := by
  induction as generalizing bs with
  | nil => cases bs <;> simp
  | cons a as ih =>
    obtain ⟨ha, has⟩ := List.forall_mem_cons.1 h
    cases bs with
    | nil => simp
    | cons b bs =>
      rw [List.forall₂_cons, ha b, ih has bs, List.forall_mem_cons, List.map_cons, List.map_cons, List.cons.injEq,
        and_and_and_comm]

theorem equalItems_iff {as bs : List Value} :
    equalItems as bs = true ↔ List.Forall₂ (fun a b => a.equal b = true) as bs := by
  induction as generalizing bs with
  | nil => cases bs <;> simp [equalItems]
  | cons a as ih => cases bs <;> simp [equalItems, ih]

theorem equalFields_iff {as bs : List (String × Value)} :
    equalFields as bs = true ↔ List.Forall₂ (fun a b => a.1 = b.1 ∧ a.2.equal b.2 = true) as bs := by
  induction as generalizing bs with
  | nil => cases bs <;> simp [equalFields]
  | cons a as ih => cases bs <;> simp [equalFields, ih]

theorem equalEntries_iff {as bs : List (Value × Value)} :
    equalEntries as bs = true ↔ List.Forall₂ (fun a b => a.1.equal b.1 = true ∧ a.2.equal b.2 = true) as bs := by
  induction as generalizing bs with
  | nil => cases bs <;> simp [equalEntries]
  | cons a as ih => cases bs <;> simp [equalEntries, ih]

theorem equalItems_iff_normalItems {as : List Value} (h : ∀ a ∈ as, ComparedByNormal a) (bs : List Value) :
    equalItems as bs = true ↔ (∀ a ∈ as, a.NaNFree) ∧ normalItems as = normalItems bs := by
  rw [equalItems_iff, normalItems_eq, normalItems_eq]
  exact forall₂_iff_map_eq h bs

theorem equalFields_iff_normalFields {as : List (String × Value)} (h : ∀ a ∈ as, ComparedByNormal a.2)
    (bs : List (String × Value)) :
    equalFields as bs = true ↔ (∀ a ∈ as, a.2.NaNFree) ∧ normalFields as = normalFields bs := by
  rw [equalFields_iff, normalFields_eq, normalFields_eq]
  refine forall₂_iff_map_eq (fun a ha b => ?_) bs
  rw [h a ha b.2, Prod.mk.injEq, and_left_comm]

theorem equalEntries_iff_normalEntries {as : List (Value × Value)}
    (h : ∀ a ∈ as, ComparedByNormal a.1 ∧ ComparedByNormal a.2) (bs : List (Value × Value)) :
    equalEntries as bs = true ↔ (∀ a ∈ as, a.1.NaNFree ∧ a.2.NaNFree) ∧ normalEntries as = normalEntries bs := by
  rw [equalEntries_iff, normalEntries_eq, normalEntries_eq]
  refine forall₂_iff_map_eq (fun a ha b => ?_) bs
  rw [(h a ha).1 b.1, (h a ha).2 b.2, Prod.mk.injEq, and_and_and_comm]

/-- Every value equals exactly those that differ from it in nothing but signs of zeros, as long as there is no NaN in it. -/
theorem comparedByNormal (a : Value) : ComparedByNormal a := by
  induction a using inductionInside with
  | step a ih =>
    intro b
    cases a with
    | number m =>
      cases b with
      | number n => rw [equal, Binary64.equal_iff, nanFree_number, normal, normal, number.injEq]
      | _ => exact iff_of_false Bool.false_ne_true fun h => nomatch h.2
    | array items =>
      have hitems : ∀ x ∈ items, ComparedByNormal x := ih
      rw [nanFree_of_number?_eq_none rfl, inside]
      cases b with
      | array items' => rw [equal, equalItems_iff_normalItems hitems, normal, normal, array.injEq]
      | _ => exact iff_of_false Bool.false_ne_true fun h => nomatch h.2
    | set items =>
      have hitems : ∀ x ∈ items, ComparedByNormal x := ih
      rw [nanFree_of_number?_eq_none rfl, inside]
      cases b with
      | set items' => rw [equal, equalItems_iff_normalItems hitems, normal, normal, set.injEq]
      | _ => exact iff_of_false Bool.false_ne_true fun h => nomatch h.2
    | object tag fields =>
      rw [nanFree_of_number?_eq_none rfl, forall_inside_object]
      cases b with
      | object tag' fields' =>
        rw [equal, Bool.and_eq_true, decide_eq_true_eq, equalFields_iff_normalFields (forall_inside_object.1 ih),
          normal, normal, object.injEq, and_left_comm]
      | _ => exact iff_of_false Bool.false_ne_true fun h => nomatch h.2
    | map entries =>
      rw [nanFree_of_number?_eq_none rfl, forall_inside_map]
      cases b with
      | map entries' =>
        rw [equal, equalEntries_iff_normalEntries (forall_inside_map.1 ih), normal, normal, map.injEq]
      | _ => exact iff_of_false Bool.false_ne_true fun h => nomatch h.2
    | _ =>
      -- nothing stands in the values that are left, and they are their own normal forms
      rw [nanFree_of_number?_eq_none rfl, and_iff_right nofun]
      cases b <;> simp [equal, normal]

variable {a b c : Value}

theorem equal_symm (h : a.equal b = true) : b.equal a = true := by
  obtain ⟨hfree, hnormal⟩ := (comparedByNormal a b).1 h
  refine (comparedByNormal b a).2 ⟨?_, hnormal.symm⟩
  rwa [← nanFree_normal, ← hnormal, nanFree_normal]

theorem equal_trans (h : a.equal b = true) (h' : b.equal c = true) : a.equal c = true := by
  obtain ⟨hfree, hnormal⟩ := (comparedByNormal a b).1 h
  exact (comparedByNormal a c).2 ⟨hfree, hnormal.trans ((comparedByNormal b c).1 h').2⟩

theorem equal_self_iff : a.equal a = true ↔ a.NaNFree := by
  rw [comparedByNormal a a, and_iff_left rfl]

theorem kind_eq_of_equal (h : a.equal b = true) : a.kind = b.kind := by
  rw [← kind_normal a, ((comparedByNormal a b).1 h).2, kind_normal]

/-- Equality of values is symmetric and transitive, and a value equals itself exactly if no number that occurs in it is a
    NaN. Such a value also equals every other that has other signs at its zeros, at any depth, and nothing besides; in
    particular nothing of another kind. -/
theorem equality_fails_at_nan_alone (a b c : Value) :
    (a.equal b = true → b.equal a = true) ∧
    (a.equal b = true → b.equal c = true → a.equal c = true) ∧
    (a.equal a = true ↔ ∀ n, a.Contains (number n) → n.isNaN = false) ∧
    (a.equal b = true ↔ (∀ n, a.Contains (number n) → n.isNaN = false) ∧ a.normal = b.normal) ∧
    (a.kind ≠ b.kind → a.equal b = false) := by
  refine ⟨equal_symm, equal_trans, equal_self_iff, comparedByNormal a b, fun hkind => ?_⟩
  rw [← Bool.not_eq_true]
  exact fun h => hkind (kind_eq_of_equal h)

-- a zero in a key and one in a set, with either sign
example : (map [(array [number (.ofMagnitude true 0)], set [number (.ofMagnitude false 0)])]).equal
    (map [(array [number (.ofMagnitude false 0)], set [number (.ofMagnitude true 0)])]) = true := by decide

-- a NaN in a key inside a field
example : let a := object none [("x", map [(number .nan, null)])]; a.equal a = false := by decide

end Value

end Conform

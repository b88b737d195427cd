import Conform.Spec.OfJson
import Conform.Proofs.Document
/- Which JSON data are specs. Data in the position of a spec has other data in the position of a spec inside it, which
   depends on its form alone (`Json.specsInside`), and so does what may be wrong with it (`Fragment.fault?`). Neither
   looks at what the data stands for. Reading gives a spec exactly where no fragment in the position of a spec is at
   fault, and otherwise the fault of the first in reading order, blamed on the place that leads to this fragment
   (`ofJson_decides`). -/
namespace Conform

def Operator.isKeyword (word : String) : Bool :=
  keywords.contains word

theorem Operator.isKeyword_eq (word : String) : isKeyword word = (ofKeyword? word).isSome := by
  rw [Bool.eq_iff_iff, ← mem_keywords_iff, isKeyword, List.contains_iff_mem]

/-! ## Following a path into JSON data -/

namespace Json

/-- What the steps lead to: a name leads to the member of an object, an index to the item of an array. -/
def follow? (json : Json) : List Segment → Option Json
  | [] => some json
  | .key name :: steps => (json.get? name).bind fun x => follow? x steps
  | .index i :: steps =>
    match json with
    | .array items => items[i]?.bind fun x => follow? x steps
    | _ => none

theorem follow?_append {json x : Json} {steps : List Segment} (h : json.follow? steps = some x)
    (rest : List Segment) : json.follow? (steps ++ rest) = x.follow? rest := by
  induction steps generalizing json with
  | nil =>
    cases h
    rfl
  | cons step steps ih =>
    cases step with
    | key name =>
      obtain ⟨y, hy, h⟩ := Option.bind_eq_some_iff.1 h
      rw [List.cons_append, follow?, hy, Option.bind_some]
      exact ih h
    | index i =>
      cases json with
      | array items =>
        obtain ⟨y, hy, h⟩ := Option.bind_eq_some_iff.1 h
        rw [List.cons_append, follow?, hy, Option.bind_some]
        exact ih h
      | _ => cases h

mutual

/-- No object in the data has two members with one name. -/
def NamesDistinct : Json → Prop
  | .array items => ItemsNamesDistinct items
  | .object members => (members.map (·.1)).Nodup ∧ MembersNamesDistinct members
  | _ => True

def ItemsNamesDistinct : List Json → Prop
  | [] => True
  | item :: rest => NamesDistinct item ∧ ItemsNamesDistinct rest

def MembersNamesDistinct : List (String × Json) → Prop
  | [] => True
  | (_, item) :: rest => NamesDistinct item ∧ MembersNamesDistinct rest

end

theorem itemsNamesDistinct_iff {items : List Json} : ItemsNamesDistinct items ↔ ∀ x ∈ items, x.NamesDistinct := by
  induction items with
  | nil => simp [ItemsNamesDistinct]
  | cons x rest ih => rw [ItemsNamesDistinct, ih, List.forall_mem_cons]

theorem membersNamesDistinct_iff {members : List (String × Json)} :
    MembersNamesDistinct members ↔ ∀ m ∈ members, m.2.NamesDistinct := by
  induction members with
  | nil => simp [MembersNamesDistinct]
  | cons m rest ih => rw [MembersNamesDistinct, ih, List.forall_mem_cons]

theorem namesDistinct_array {items : List Json} : (array items).NamesDistinct ↔ ∀ x ∈ items, x.NamesDistinct := by
  rw [NamesDistinct, itemsNamesDistinct_iff]

theorem namesDistinct_object {members : List (String × Json)} :
    (object members).NamesDistinct ↔ (members.map (·.1)).Nodup ∧ ∀ m ∈ members, m.2.NamesDistinct := by
  rw [NamesDistinct, membersNamesDistinct_iff]

theorem member?_of_mem {members : List (String × Json)} (h : (members.map (·.1)).Nodup) {name : String} {x : Json}
    (hmem : (name, x) ∈ members) : member? name members = some x := by
  induction members with
  | nil => cases hmem
  | cons m rest ih =>
    obtain ⟨n, y⟩ := m
    obtain ⟨hn, hrest⟩ := List.nodup_cons.1 h
    rcases List.mem_cons.1 hmem with heq | hmem
    · cases heq
      exact if_pos rfl
    · have hne : n ≠ name := by
        rintro rfl
        exact hn (List.mem_map.2 ⟨_, hmem, rfl⟩)
      rw [member?, if_neg hne]
      exact ih hrest hmem

/-! ## The positions of specs -/

def isKeyword : Json → Bool
  | .string word => Operator.isKeyword word
  | _ => false

/-- The name of the only member of a map makes the map an operator. -/
def isOperatorName (name : String) : Bool :=
  Spec.hasSigil name && Operator.isKeyword name

/-- Operands with the steps that lead to them; the first has the given index. -/
def operandsFrom (lead : List Segment) (start : Nat) (operands : List Json) : List (List Segment × Json) :=
  operands.mapIdx fun i x => (lead ++ [.index (i + start)], x)

/-- The fragments in the position of a spec directly inside data in the position of a spec, in the order in which they
    are written, each with the steps that lead to it. -/
def specsInside : Json → List (List Segment × Json)
  | .array [item] => [([.index 0], item)]
  | .array (head :: operands) => if head.isKeyword then operandsFrom [] 1 operands else []
  | .object [(name, operand)] =>
    if isOperatorName name then
      match operand with
      | .array operands => operandsFrom [.key name] 0 operands
      | single => [([.key name], single)]
    else [([.key name], operand)]
  | .object members => members.map fun member => ([.key member.1], member.2)
  | _ => []

theorem specsInside_keyword {head : Json} (h : head.isKeyword = true) (second : Json) (rest : List Json) :
    specsInside (.array (head :: second :: rest)) = operandsFrom [] 1 (second :: rest) := by
  simp [specsInside, h]

theorem specsInside_unmarked {name : String} (h : Spec.hasSigil name = false) (operand : Json) :
    specsInside (.object [(name, operand)]) = [([.key name], operand)] := by
  simp [specsInside, isOperatorName, h]

theorem mem_operandsFrom {lead steps : List Segment} {start : Nat} {operands : List Json} {x : Json}
    (h : (steps, x) ∈ operandsFrom lead start operands) :
    ∃ i, operands[i]? = some x ∧ steps = lead ++ [.index (i + start)] := by
  obtain ⟨i, hi, heq⟩ := List.mem_mapIdx.1 h
  cases heq
  exact ⟨i, List.getElem?_eq_getElem hi, rfl⟩

theorem mem_specsInside {json x : Json} {steps : List Segment} (h : (steps, x) ∈ json.specsInside) :
    (∃ items i, json = .array items ∧ items[i]? = some x ∧ steps = [.index i]) ∨
    (∃ name items i, json = .object [(name, .array items)] ∧ items[i]? = some x ∧ steps = [.key name, .index i]) ∨
    (∃ members name, json = .object members ∧ (name, x) ∈ members ∧ steps = [.key name]) := by
  match json with
  | .array [] => cases h
  | .array [item] =>
    cases List.mem_singleton.1 h
    exact .inl ⟨_, 0, rfl, rfl, rfl⟩
  | .array (head :: second :: rest) =>
    rw [specsInside] at h
    · cases hkeyword : head.isKeyword with
      | false =>
        rw [hkeyword] at h
        cases h
      | true =>
        rw [hkeyword] at h
        obtain ⟨i, hx, hsteps⟩ := mem_operandsFrom h
        exact .inl ⟨_, i + 1, rfl, by rw [List.getElem?_cons_succ, hx], hsteps⟩
    · simp
  | .object [] => cases h
  | .object [(name, operand)] =>
    by_cases hname : isOperatorName name = true
    · cases operand with
      | array operands =>
        simp only [specsInside, hname, if_true] at h
        obtain ⟨i, hx, hsteps⟩ := mem_operandsFrom h
        exact .inr (.inl ⟨name, operands, i, rfl, hx, hsteps⟩)
      | _ =>
        simp only [specsInside, hname, if_true] at h
        cases List.mem_singleton.1 h
        exact .inr (.inr ⟨_, name, rfl, List.mem_singleton.2 rfl, rfl⟩)
    · simp only [specsInside, if_neg hname] at h
      cases List.mem_singleton.1 h
      exact .inr (.inr ⟨_, name, rfl, List.mem_singleton.2 rfl, rfl⟩)
  | .object (first :: second :: rest) =>
    rw [specsInside] at h
    · obtain ⟨member, hmember, heq⟩ := List.mem_map.1 h
      cases heq
      exact .inr (.inr ⟨_, member.1, rfl, hmember, rfl⟩)
    · simp

/-- What stands inside is smaller, so there is no way inwards without end. -/
theorem sizeOf_lt_of_mem_specsInside {json x : Json} {steps : List Segment} (h : (steps, x) ∈ json.specsInside) :
    sizeOf x < sizeOf json := by
  rcases mem_specsInside h with ⟨items, i, rfl, hx, -⟩ | ⟨name, items, i, rfl, hx, -⟩ | ⟨members, name, rfl, hx, -⟩
  · have hlt := List.sizeOf_lt_of_mem (List.mem_of_getElem? hx)
    rw [array.sizeOf_spec]
    omega
  · have hlt := List.sizeOf_lt_of_mem (List.mem_of_getElem? hx)
    simp only [object.sizeOf_spec, array.sizeOf_spec, List.cons.sizeOf_spec, Prod.mk.sizeOf_spec]
    omega
  · have hlt := List.sizeOf_lt_of_mem hx
    rw [Prod.mk.sizeOf_spec] at hlt
    rw [object.sizeOf_spec]
    omega

/-- Where names are distinct, the steps lead to what stands inside, and names are distinct there. -/
theorem follow?_of_mem_specsInside {json x : Json} {steps : List Segment} (hnames : json.NamesDistinct)
    (h : (steps, x) ∈ json.specsInside) : json.follow? steps = some x ∧ x.NamesDistinct := by
  rcases mem_specsInside h with ⟨items, i, rfl, hx, rfl⟩ | ⟨name, items, i, rfl, hx, rfl⟩ |
    ⟨members, name, rfl, hx, rfl⟩
  · refine ⟨?_, namesDistinct_array.1 hnames x (List.mem_of_getElem? hx)⟩
    rw [follow?, hx]
    rfl
  · have hitems : (array items).NamesDistinct := (namesDistinct_object.1 hnames).2 (name, .array items) (by simp)
    refine ⟨?_, namesDistinct_array.1 hitems x (List.mem_of_getElem? hx)⟩
    simp [follow?, get?, member?, hx]
  · refine ⟨?_, (namesDistinct_object.1 hnames).2 (name, x) hx⟩
    rw [follow?, get?, member?_of_mem (namesDistinct_object.1 hnames).1 hx]
    rfl

end Json

def Path.follow (p : Path) (steps : List Segment) : Path :=
  ⟨p.segments ++ steps⟩

theorem Path.follow_nil (p : Path) : p.follow [] = p := by
  rw [follow, List.append_nil]

theorem Path.follow_follow (p : Path) (steps rest : List Segment) :
    (p.follow steps).follow rest = p.follow (steps ++ rest) := by
  rw [follow, follow, follow, List.append_assoc]

/-- Data in the position of a spec, with its place. -/
structure Fragment where
  place : Path
  json : Json

namespace Fragment

def inside (f : Fragment) : List Fragment :=
  f.json.specsInside.map fun entry => ⟨f.place.follow entry.1, entry.2⟩

/-- What is wrong with a fragment itself, whatever stands inside it. -/
def fault? (f : Fragment) : Option SpecError :=
  match f.json with
  | .array [] => some (.emptySpec f.place)
  | .array [_] => none
  | .array (head :: _) => if head.isKeyword then none else some (.unknownOperator (Spec.headText head) f.place)
  | .object [(name, _)] =>
    if Spec.hasSigil name && !Operator.isKeyword name then some (.unknownOperator name f.place) else none
  | .object _ => none
  | .string name =>
    if (Text.split '|' name).any fun part => (Text.trim part).isEmpty then
      some (.invalidSpec f.place (SpecError.emptyNameReason name))
    else none
  | other => some (.invalidSpec f.place (SpecError.noSpecReason other.print))

theorem place?_fault? (f : Fragment) {e : SpecError} (h : f.fault? = some e) : e.place? = some f.place := by
  rcases f with ⟨p, json⟩
  match json with
  | .array [] | .null | .bool _ | .int _ | .float _ => cases h; rfl
  | .array [_] | .object [] | .object (_ :: _ :: _) => cases h
  | .array (head :: second :: rest) =>
    simp only [fault?] at h
    split at h
    · cases h
    · cases h; rfl
  | .object [(name, operand)] =>
    simp only [fault?] at h
    split at h
    · cases h; rfl
    · cases h
  | .string name =>
    simp only [fault?] at h
    split at h
    · cases h; rfl
    · cases h

theorem wellFounded_inside : WellFounded fun g f : Fragment => g ∈ f.inside :=
  Subrelation.wf (by
    intro g f h
    obtain ⟨entry, hentry, rfl⟩ := List.mem_map.1 h
    exact Json.sizeOf_lt_of_mem_specsInside hentry) (measure fun f : Fragment => sizeOf f.json).wf

/-- Where names are distinct, the place of a fragment leads to it. -/
theorem follow?_of_nodeAt? {f g : Fragment} {pos : List Nat} (hnames : f.json.NamesDistinct)
    (h : Document.nodeAt? inside f pos = some g) :
    ∃ steps, g.place = f.place.follow steps ∧ f.json.follow? steps = some g.json := by
  induction pos generalizing f with
  | nil =>
    cases h
    exact ⟨[], (Path.follow_nil _).symm, rfl⟩
  | cons i pos ih =>
    obtain ⟨e, he, h⟩ := Document.nodeAt?_cons_eq_some_iff.1 h
    obtain ⟨⟨steps, x⟩, hentry, rfl⟩ := List.mem_map.1 (List.mem_of_getElem? he)
    obtain ⟨hx, hxnames⟩ := Json.follow?_of_mem_specsInside hnames hentry
    obtain ⟨rest, hplace, hrest⟩ := ih hxnames h
    refine ⟨steps ++ rest, ?_, (Json.follow?_append hx rest).trans hrest⟩
    rw [hplace, Path.follow_follow]

/-- The fault that reading a fragment ends with. -/
def readingFault? (f : Fragment) : Option SpecError :=
  SpecError.ofAnswer? (Spec.ofJsonAt f.place f.json)

end Fragment

/-! ## Reading searches the fragments -/

namespace Spec
open SpecError Fragment

theorem isSome_headOperator? (head : Json) : (headOperator? head).isSome = head.isKeyword := by
  cases head with
  | string word => exact (Operator.isKeyword_eq word).symm
  | _ => rfl

theorem ofAnswer?_operandsAt (p : Path) (start : Nat) (items : List Json) :
    ofAnswer? (operandsAt p start items) =
      (items.mapIdx fun i x => (⟨p.index (i + start), x⟩ : Fragment)).findSome? readingFault? := by
  induction items generalizing start with
  | nil => rfl
  | cons x rest ih =>
    have ih := ih (start + 1)
    rw [operandsAt, List.mapIdx_cons, List.findSome?_cons, Nat.zero_add, readingFault?]
    cases ofJsonAt (p.index start) x with
    | error e => rfl
    | ok s =>
      have hindex : ∀ i, i + 1 + start = i + (start + 1) := by omega
      simp only [hindex]
      rw [ofAnswer?, ← ih]
      cases operandsAt p (start + 1) rest <;> rfl

theorem ofAnswer?_fieldsAt (p : Path) (members : List (String × Json)) :
    ofAnswer? (fieldsAt p members) =
      (members.map fun member => (⟨p.key member.1, member.2⟩ : Fragment)).findSome? readingFault? := by
  induction members with
  | nil => rfl
  | cons member rest ih =>
    rw [fieldsAt, List.map_cons, List.findSome?_cons, readingFault?]
    cases ofJsonAt (p.key member.1) member.2 with
    | error e => rfl
    | ok s =>
      rw [ofAnswer?, ← ih]
      cases fieldsAt p rest <;> rfl

theorem map_operandsFrom (p : Path) (lead : List Segment) (start : Nat) (operands : List Json) :
    ((Json.operandsFrom lead start operands).map fun entry => (⟨p.follow entry.1, entry.2⟩ : Fragment)) =
      operands.mapIdx fun i x => ⟨(p.follow lead).index (i + start), x⟩ := by
  have hplace : ∀ i, p.follow (lead ++ [.index i]) = (p.follow lead).index i := by
    intro i
    simp [Path.follow, Path.index, Path.push]
  rw [Json.operandsFrom, List.mapIdx_eq_zipIdx_map, List.map_map, List.mapIdx_eq_zipIdx_map]
  simp only [Function.comp_def, hplace]

theorem findSome?_operandsFrom (p : Path) (lead : List Segment) (start : Nat) (operands : List Json) :
    ((Json.operandsFrom lead start operands).map fun entry => (⟨p.follow entry.1, entry.2⟩ : Fragment)).findSome?
      readingFault? = ofAnswer? (operandsAt (p.follow lead) start operands) := by
  rw [map_operandsFrom, ofAnswer?_operandsAt]

theorem readingFault?_string (p : Path) (name : String) :
    readingFault? ⟨p, .string name⟩ = fault? ⟨p, .string name⟩ := by
  have hblank : (leafNames name).any String.isEmpty =
      (Text.split '|' name).any fun part => (Text.trim part).isEmpty := by
    rw [leafNames, List.any_map]
    rfl
  simp only [readingFault?, fault?, ofJsonAt, leafAt, hblank]
  split <;> rfl

/-- A list with one item is read as its item, a longer one as its operands, if its head is a keyword. -/
theorem readingFault?_array (p : Path) (items : List Json) :
    readingFault? ⟨p, .array items⟩ =
      (fault? ⟨p, .array items⟩).or ((Fragment.inside ⟨p, .array items⟩).findSome? readingFault?) := by
  match items with
  | [] => rfl
  | [item] =>
    have hread : readingFault? ⟨p, .array [item]⟩ = readingFault? ⟨p.index 0, item⟩ := ofAnswer?_map listOf _
    rw [hread]
    exact List.findSome?_singleton.symm
  | head :: second :: rest =>
    -- the index of the first operand is one here, since the head stands before it
    have hkeyword := isSome_headOperator? head
    cases hop : headOperator? head with
    | none =>
      rw [hop] at hkeyword
      simp [readingFault?, ofJsonAt, fault?, hop, ← hkeyword, ofAnswer?]
    | some op =>
      rw [hop] at hkeyword
      have hread : readingFault? ⟨p, .array (head :: second :: rest)⟩ = ofAnswer? (operandsAt p 1 (second :: rest)) := by
        simp only [readingFault?, ofJsonAt, hop, ofAnswer?_map]
      have hfault : fault? ⟨p, .array (head :: second :: rest)⟩ = none := by
        simp [fault?, ← hkeyword]
      rw [hread, hfault, Option.none_or, Fragment.inside, Json.specsInside_keyword hkeyword.symm,
        findSome?_operandsFrom, Path.follow_nil]

theorem ofJsonAt_marked {p : Path} {name : String} {operand : Json} (hsigil : hasSigil name = true) :
    ofAnswer? (ofJsonAt p (.object [(name, operand)])) =
      if Operator.isKeyword name = true then
        match operand with
        | .array operands => ofAnswer? (operandsAt (p.key name) 0 operands)
        | single => readingFault? ⟨p.key name, single⟩
      else some (.unknownOperator name p) := by
  rw [Operator.isKeyword_eq]
  cases hop : Operator.ofKeyword? name with
  | none => cases operand <;> simp [ofJsonAt, hsigil, hop, ofAnswer?]
  | some op => cases operand <;> simp [ofJsonAt, hsigil, hop, readingFault?]

/-- A map with one member is read as operands, if the name of the member is marked as an operator and known as one. All
    other maps are read as their members. -/
theorem readingFault?_object (p : Path) (members : List (String × Json)) :
    readingFault? ⟨p, .object members⟩ =
      (fault? ⟨p, .object members⟩).or ((Fragment.inside ⟨p, .object members⟩).findSome? readingFault?) := by
  match members with
  | [] => rfl
  | [(name, operand)] =>
    cases hsigil : hasSigil name with
    | false =>
      have hread : readingFault? ⟨p, .object [(name, operand)]⟩ = readingFault? ⟨p.key name, operand⟩ := by
        cases operand <;> simp [readingFault?, ofJsonAt, hsigil]
      have hfault : fault? ⟨p, .object [(name, operand)]⟩ = none := by
        simp [fault?, hsigil]
      rw [hread, hfault, Option.none_or, Fragment.inside, Json.specsInside_unmarked hsigil]
      exact List.findSome?_singleton.symm
    | true =>
      rw [readingFault?, ofJsonAt_marked hsigil]
      cases hkeyword : Operator.isKeyword name with
      | false => simp [fault?, hsigil, hkeyword]
      | true =>
        have hfault : fault? ⟨p, .object [(name, operand)]⟩ = none := by
          simp [fault?, hkeyword]
        rw [if_pos rfl, hfault, Option.none_or, Fragment.inside]
        cases operand with
        | array operands =>
          simp only [Json.specsInside, Json.isOperatorName, hsigil, hkeyword, Bool.and_self, if_true,
            findSome?_operandsFrom]
          rfl
        | _ =>
          simp only [Json.specsInside, Json.isOperatorName, hsigil, hkeyword, Bool.and_self, if_true]
          exact List.findSome?_singleton.symm
  | first :: second :: rest =>
    have hread : readingFault? ⟨p, .object (first :: second :: rest)⟩ =
        ofAnswer? (fieldsAt p (first :: second :: rest)) := ofAnswer?_map shape _
    rw [hread, ofAnswer?_fieldsAt, Fragment.inside, Json.specsInside, List.map_map]
    · rfl
    · simp

/-- Reading looks at a fragment before it looks at those inside it, from the first to the last. -/
theorem searches_readingFault? : Document.Searches Fragment.inside fault? readingFault? where
  bounded := Fragment.wellFounded_inside
  step := by
    rintro ⟨p, json⟩
    cases json with
    | array items => exact readingFault?_array p items
    | object members => exact readingFault?_object p members
    | string name =>
      rw [readingFault?_string]
      exact Option.or_none.symm
    | _ => rfl

end Spec

/-! ## Reading gives a spec or blames the first fault -/

/-- JSON data stands for a spec exactly where no fragment in the position of a spec is at fault. Otherwise the fault of
    the first such fragment in reading order is given, with the place of this fragment: where no object has two members
    with one name, following it from the outermost data leads to the fragment. -/
theorem ofJson_decides (json : Json) :
    ((∃ s, Spec.ofJson json = .ok s) ↔
      ∀ pos f, Document.nodeAt? Fragment.inside ⟨.root, json⟩ pos = some f → f.fault? = none) ∧
    (∀ e, Spec.ofJson json = .error e ↔
      ∃ pos f, Document.FirstFault Fragment.inside Fragment.fault? ⟨.root, json⟩ pos f e) ∧
    (∀ pos f e, Document.FirstFault Fragment.inside Fragment.fault? ⟨.root, json⟩ pos f e →
      e.place? = some f.place ∧ (json.NamesDistinct → json.follow? f.place.segments = some f.json)) := by
  refine ⟨?_, fun e => ?_, fun pos f e hfirst => ⟨f.place?_fault? hfirst.faulty, fun hnames => ?_⟩⟩
  · rw [← Spec.searches_readingFault?.eq_none_iff]
    exact SpecError.ofAnswer?_eq_none_iff.symm
  · rw [← Spec.searches_readingFault?.eq_some_iff]
    exact SpecError.ofAnswer?_eq_some_iff.symm
  · obtain ⟨steps, hplace, hjson⟩ := Fragment.follow?_of_nodeAt? hnames hfirst.stands
    rw [hplace]
    exact hjson

/-- The blank name in the operand of an operator is blamed, and not the empty list behind it. -/
theorem ofJson_decides_nested :
    let json : Json := .object
      [("a", .array [.string "$any", .string "x", .object [("$not", .array [.string "y| "])]]), ("b", .array [])]
    let p : Path := ⟨[.key "a", .index 2, .key "$not", .index 0]⟩
    json.NamesDistinct ∧ Spec.ofJson json = .error (.invalidSpec p (SpecError.emptyNameReason "y| ")) ∧
      ∃ pos f, Document.FirstFault Fragment.inside Fragment.fault? ⟨.root, json⟩ pos f
          (.invalidSpec p (SpecError.emptyNameReason "y| ")) ∧
        f.place = p ∧ json.follow? p.segments = some f.json := by
  intro json p
  have hnames : json.NamesDistinct := by
    simp [json, Json.NamesDistinct, Json.ItemsNamesDistinct, Json.MembersNamesDistinct]
  have hread : Spec.ofJson json = .error (.invalidSpec p (SpecError.emptyNameReason "y| ")) := rfl
  obtain ⟨-, herror, hplace⟩ := ofJson_decides json
  obtain ⟨pos, f, hfirst⟩ := (herror _).1 hread
  obtain ⟨hp, hfollow⟩ := hplace pos f _ hfirst
  have hfp : f.place = p := (Option.some.inj hp).symm
  refine ⟨hnames, hread, pos, f, hfirst, hfp, ?_⟩
  rw [← hfp]
  exact hfollow hnames

end Conform

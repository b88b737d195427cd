import Mathlib.Data.List.Forall2
import Conform.Proofs.Grammar
import Conform.Proofs.Parts
/- Which specs can be written as JSON data. `Spec.toJson` writes a spec in one form for each constructor: an operator as
   a map with one member, a list with its one item, a shape as a map. Reading gives the spec back if every spec in it has
   such a form (`Spec.ofJsonAt_toJson`), which is a matter of each of them by itself (`Spec.HasForm`). The other way
   round, `Spec.Reading` says how a spec can come out of data: it has a form, and its parts come out of the fragments
   inside. So the specs that data can stand for are exactly those that can be written (`ofJson_image`). -/
namespace Conform

namespace Spec

/-! ## Writing a spec -/

mutual

/-- The JSON data that a spec is written as. There is no way to write a predicate; null is put in its place, which is
    no spec. -/
def toJson : Spec → Json
  | leaf name => .string name
  | listOf item => .array [toJson item]
  | operator op operands => .object [(op.keyword, .array (toItems operands))]
  | tuple operands => .object [(Operator.tuple.keyword, .array (toItems operands))]
  | shape fields => .object (toMembers fields)
  | predicate _ _ => .null

def toItems : List Spec → List Json
  | [] => []
  | s :: rest => toJson s :: toItems rest

def toMembers : List (String × Spec) → List (String × Json)
  | [] => []
  | (name, s) :: rest => (name, toJson s) :: toMembers rest

end

theorem toItems_eq (specs : List Spec) : toItems specs = specs.map toJson := by
  induction specs with
  | nil => rfl
  | cons s rest ih => rw [toItems, ih, List.map_cons]

theorem toMembers_eq (fields : List (String × Spec)) :
    toMembers fields = fields.map fun field => (field.1, toJson field.2) := by
  induction fields with
  | nil => rfl
  | cons field rest ih => rw [toMembers, ih, List.map_cons]

/-- The spec itself has a form in which it can be written, whatever its parts are. A map with one member would be read
    as an operator if the name of the member were marked as one. -/
def HasForm : Spec → Prop
  | leaf name => ∀ n ∈ leafNames name, n ≠ ""
  | listOf _ | tuple _ => True
  | operator op _ => op ≠ .tuple
  | shape fields => (fields.map (·.1)).Nodup ∧ ∀ name s, fields = [(name, s)] → hasSigil name = false
  | predicate _ _ => False

/-- Every spec inside the spec has a form in which it can be written. -/
def Writable (s : Spec) : Prop :=
  ∀ pos t, Document.nodeAt? parts s pos = some t → t.HasForm

theorem writable_iff {s : Spec} : s.Writable ↔ s.HasForm ∧ ∀ t ∈ s.parts, t.Writable :=
  Document.forall_nodeAt?_iff

/-! ## Reading what was written -/

theorem hasSigil_keyword (op : Operator) : hasSigil op.keyword = true := by
  cases op <;> decide

theorem ofJsonAt_unmarked {name : String} (h : hasSigil name = false) (p : Path) (operand : Json) :
    ofJsonAt p (.object [(name, operand)]) = (ofJsonAt (p.key name) operand).map fun s => shape [(name, s)] := by
  cases operand <;> simp [ofJsonAt, h]

/-- A map with one member whose name is a marked keyword is an operator; its operands are the items of a list or what
    stands there alone. -/
theorem ofJsonAt_operator {name : String} {op : Operator} (hsigil : hasSigil name = true)
    (hop : Operator.ofKeyword? name = some op) (p : Path) (operand : Json) :
    ofJsonAt p (.object [(name, operand)]) =
      (match operand with
        | .array operands => operandsAt (p.key name) 0 operands
        | single => (ofJsonAt (p.key name) single).map fun s => [s]).map (combine op) := by
  cases operand <;> simp [ofJsonAt, hsigil, hop]

theorem ofJsonAt_keyword (p : Path) (op : Operator) (operands : List Json) :
    ofJsonAt p (.object [(op.keyword, .array operands)]) =
      (operandsAt (p.key op.keyword) 0 operands).map (combine op) :=
  ofJsonAt_operator (hasSigil_keyword op) (Operator.ofKeyword?_keyword op) p (.array operands)

/-- The spec is what reading gives when it was written, at every place. -/
def ReadsBack (s : Spec) : Prop :=
  ∀ p, ofJsonAt p s.toJson = .ok s

theorem operandsAt_toItems {operands : List Spec} (h : ∀ s ∈ operands, s.ReadsBack) (p : Path) (start : Nat) :
    operandsAt p start (toItems operands) = .ok operands := by
  induction operands generalizing start with
  | nil => rfl
  | cons s rest ih =>
    obtain ⟨hs, hrest⟩ := List.forall_mem_cons.1 h
    rw [toItems, operandsAt, hs, ih hrest]
    rfl

theorem fieldsAt_toMembers {fields : List (String × Spec)} (h : ∀ field ∈ fields, field.2.ReadsBack) (p : Path) :
    fieldsAt p (toMembers fields) = .ok fields := by
  induction fields with
  | nil => rfl
  | cons field rest ih =>
    obtain ⟨hfield, hrest⟩ := List.forall_mem_cons.1 h
    rw [toMembers, fieldsAt, hfield, ih hrest]
    rfl

theorem ofJsonAt_toJson {s : Spec} (h : s.Writable) : s.ReadsBack := by
  induction s with
  | leaf name =>
    intro p
    have hnames : (leafNames name).any String.isEmpty = false := by
      rw [List.any_eq_false]
      intro n hn
      simpa using (writable_iff.1 h).1 n hn
    rw [toJson, ofJsonAt, leafAt, hnames]
    rfl
  | listOf item ih =>
    intro p
    have hitem := ih ((writable_iff.1 h).2 item (List.mem_singleton.2 rfl))
    rw [toJson, ofJsonAt, hitem]
    rfl
  | operator op operands ih =>
    intro p
    obtain ⟨hop, hparts⟩ := writable_iff.1 h
    rw [toJson, ofJsonAt_keyword, operandsAt_toItems fun s hs => ih s hs (hparts s hs)]
    cases op with
    | tuple => exact absurd rfl hop
    | _ => rfl
  | tuple operands ih =>
    intro p
    have hparts := (writable_iff.1 h).2
    rw [toJson, ofJsonAt_keyword, operandsAt_toItems fun s hs => ih s hs (hparts s hs)]
    rfl
  | shape fields ih =>
    intro p
    obtain ⟨⟨-, hsigil⟩, hparts⟩ := writable_iff.1 h
    have hfields : ∀ field ∈ fields, field.2.ReadsBack :=
      fun field hfield => ih field hfield (hparts field.2 (List.mem_map_of_mem hfield))
    cases fields with
    | nil => rfl
    | cons first rest =>
      cases rest with
      | nil =>
        -- a map with one member is a shape only because the name is not marked
        rw [toJson, toMembers, toMembers, ofJsonAt_unmarked (hsigil first.1 first.2 rfl),
          hfields first (List.mem_singleton.2 rfl)]
        rfl
      | cons second rest =>
        have hread := fieldsAt_toMembers hfields p
        rw [toMembers, toMembers] at hread
        rw [toJson, toMembers, toMembers, ofJsonAt, hread]
        · rfl
        · simp
  | predicate name test => exact absurd (writable_iff.1 h).1 not_false

theorem namesDistinct_array_toItems {specs : List Spec} (h : ∀ s ∈ specs, s.toJson.NamesDistinct) :
    (Json.array (toItems specs)).NamesDistinct := by
  rw [Json.namesDistinct_array, toItems_eq, List.forall_mem_map]
  exact h

theorem namesDistinct_marked {name : String} {operand : Json} (h : operand.NamesDistinct) :
    (Json.object [(name, operand)]).NamesDistinct := by
  rw [Json.namesDistinct_object, List.forall_mem_singleton]
  exact ⟨by simp, h⟩

theorem namesDistinct_toJson {s : Spec} (h : s.Writable) : s.toJson.NamesDistinct := by
  induction s with
  | leaf name => trivial
  | predicate name test => trivial
  | listOf item ih =>
    have hitem := ih ((writable_iff.1 h).2 item (List.mem_singleton.2 rfl))
    rw [toJson, Json.namesDistinct_array, List.forall_mem_singleton]
    exact hitem
  | operator op operands ih =>
    have hparts := (writable_iff.1 h).2
    exact namesDistinct_marked (namesDistinct_array_toItems fun s hs => ih s hs (hparts s hs))
  | tuple operands ih =>
    have hparts := (writable_iff.1 h).2
    exact namesDistinct_marked (namesDistinct_array_toItems fun s hs => ih s hs (hparts s hs))
  | shape fields ih =>
    obtain ⟨⟨hnames, -⟩, hparts⟩ := writable_iff.1 h
    rw [toJson, Json.namesDistinct_object, toMembers_eq, List.forall_mem_map, List.map_map]
    exact ⟨hnames, fun field hfield => ih field hfield (hparts field.2 (List.mem_map_of_mem hfield))⟩

/-! ## What was read can be written -/

theorem parts_combine (op : Operator) (operands : List Spec) : (combine op operands).parts = operands := by
  cases op <;> rfl

theorem hasForm_combine (op : Operator) (operands : List Spec) : (combine op operands).HasForm := by
  cases op <;> simp [combine, HasForm]

end Spec

/-- The fragment is read as the spec. -/
def Fragment.Gives (f : Fragment) (s : Spec) : Prop :=
  Spec.ofJsonAt f.place f.json = .ok s

namespace Spec
open Fragment

theorem ok_of_map_eq_ok {α β : Type} {f : α → β} {answer : Except SpecError α} {b : β} (h : answer.map f = .ok b) :
    ∃ a, answer = .ok a ∧ f a = b := by
  cases answer with
  | error e => cases h
  | ok a => exact ⟨a, rfl, Except.ok.inj h⟩

theorem exists_gives_of_mem {fragments : List Fragment} {specs : List Spec} (h : List.Forall₂ Gives fragments specs)
    {s : Spec} (hs : s ∈ specs) : ∃ f ∈ fragments, f.Gives s := by
  induction h with
  | nil => cases hs
  | cons hgives _ ih =>
    rcases List.mem_cons.1 hs with rfl | hs
    · exact ⟨_, List.mem_cons_self, hgives⟩
    · obtain ⟨f, hf, hgives⟩ := ih hs
      exact ⟨f, List.mem_cons_of_mem _ hf, hgives⟩

theorem forall₂_operandsAt {p : Path} {start : Nat} {items : List Json} {specs : List Spec}
    (h : operandsAt p start items = .ok specs) :
    List.Forall₂ Gives (items.mapIdx fun i x => ⟨p.index (i + start), x⟩) specs := by
  induction items generalizing start specs with
  | nil =>
    cases h
    exact .nil
  | cons x rest ih =>
    rw [operandsAt] at h
    cases hx : ofJsonAt (p.index start) x with
    | error e => rw [hx] at h; cases h
    | ok s =>
      cases hrest : operandsAt p (start + 1) rest with
      | error e => rw [hx, hrest] at h; cases h
      | ok others =>
        rw [hx, hrest] at h
        cases h
        have hindex : ∀ i, i + 1 + start = i + (start + 1) := by omega
        rw [List.mapIdx_cons, Nat.zero_add]
        simp only [hindex]
        exact .cons hx (ih hrest)

theorem forall₂_fieldsAt {p : Path} {members : List (String × Json)} {fields : List (String × Spec)}
    (h : fieldsAt p members = .ok fields) :
    fields.map (·.1) = members.map (·.1) ∧
      List.Forall₂ Gives (members.map fun member => ⟨p.key member.1, member.2⟩) (fields.map (·.2)) := by
  induction members generalizing fields with
  | nil =>
    cases h
    exact ⟨rfl, .nil⟩
  | cons member rest ih =>
    rw [fieldsAt] at h
    cases hx : ofJsonAt (p.key member.1) member.2 with
    | error e => rw [hx] at h; cases h
    | ok s =>
      cases hrest : fieldsAt p rest with
      | error e => rw [hx, hrest] at h; cases h
      | ok others =>
        rw [hx, hrest] at h
        cases h
        obtain ⟨hnames, hothers⟩ := ih hrest
        exact ⟨congrArg (member.1 :: ·) hnames, .cons hx hothers⟩

/-- How a spec can come out of a fragment. Operands, items and fields were read from the fragments inside, one from each
    and in the same order. -/
inductive Reading (f : Fragment) : Spec → Prop where
  | leaf {name : String} (hjson : f.json = .string name) (hnames : ∀ n ∈ leafNames name, n ≠ "") : Reading f (leaf name)
  | listOf {item : Spec} (hinside : List.Forall₂ Gives f.inside [item]) : Reading f (listOf item)
  | combine (op : Operator) {operands : List Spec} (hinside : List.Forall₂ Gives f.inside operands) :
    Reading f (combine op operands)
  | shape {members : List (String × Json)} {fields : List (String × Spec)} (hjson : f.json = .object members)
      (hnames : fields.map (·.1) = members.map (·.1)) (hsigil : ∀ name s, fields = [(name, s)] → hasSigil name = false)
      (hinside : List.Forall₂ Gives f.inside (fields.map (·.2))) : Reading f (shape fields)

theorem reading_string {p : Path} {name : String} {s : Spec} (h : ofJsonAt p (.string name) = .ok s) :
    Reading ⟨p, .string name⟩ s := by
  rw [ofJsonAt, leafAt] at h
  split at h
  · cases h
  · next hblank =>
    cases h
    refine .leaf rfl fun n hn hempty => hblank ?_
    exact List.any_eq_true.2 ⟨n, hn, by rw [hempty]; rfl⟩

theorem reading_array {p : Path} {items : List Json} {s : Spec} (h : ofJsonAt p (.array items) = .ok s) :
    Reading ⟨p, .array items⟩ s := by
  match items with
  | [] => cases h
  | [item] =>
    obtain ⟨t, ht, rfl⟩ := ok_of_map_eq_ok h
    exact .listOf (.cons ht .nil)
  | head :: second :: rest =>
    -- a list that does not start with a keyword is no spec
    have hkeyword := isSome_headOperator? head
    simp only [ofJsonAt] at h
    cases hop : headOperator? head with
    | none => rw [hop] at h; cases h
    | some op =>
      rw [hop] at h hkeyword
      obtain ⟨operands, hoperands, rfl⟩ := ok_of_map_eq_ok h
      refine .combine op ?_
      rw [inside, Json.specsInside_keyword hkeyword.symm, map_operandsFrom, Path.follow_nil]
      exact forall₂_operandsAt hoperands

/-- A map with one member is read as an operator or as a shape, and the mark of its name tells which. -/
theorem reading_member {p : Path} {name : String} {operand : Json} {s : Spec}
    (h : ofJsonAt p (.object [(name, operand)]) = .ok s) : Reading ⟨p, .object [(name, operand)]⟩ s := by
  cases hsigil : hasSigil name with
  | false =>
    rw [ofJsonAt_unmarked hsigil] at h
    obtain ⟨t, ht, rfl⟩ := ok_of_map_eq_ok h
    refine .shape rfl rfl (fun other s hfields => ?_) ?_
    · cases hfields
      exact hsigil
    · rw [inside, Json.specsInside_unmarked hsigil]
      exact .cons ht .nil
  | true =>
    cases hop : Operator.ofKeyword? name with
    | none => cases operand <;> simp [ofJsonAt, hsigil, hop] at h
    | some op =>
      have hname : Json.isOperatorName name = true := by
        rw [Json.isOperatorName, hsigil, Operator.isKeyword_eq, hop]
        rfl
      rw [ofJsonAt_operator hsigil hop] at h
      obtain ⟨operands, hoperands, rfl⟩ := ok_of_map_eq_ok h
      refine .combine op ?_
      cases operand with
      | array items =>
        simp only [inside, Json.specsInside, hname, if_true, map_operandsFrom]
        exact forall₂_operandsAt hoperands
      | _ =>
        obtain ⟨t, ht, rfl⟩ := ok_of_map_eq_ok hoperands
        simp only [inside, Json.specsInside, hname, if_true]
        exact .cons ht .nil

theorem reading_object {p : Path} {members : List (String × Json)} {s : Spec}
    (h : ofJsonAt p (.object members) = .ok s) : Reading ⟨p, .object members⟩ s := by
  match members with
  | [] =>
    cases h
    exact .shape rfl rfl (fun name s hfields => by cases hfields) .nil
  | [(name, operand)] => exact reading_member h
  | first :: second :: rest =>
    obtain ⟨fields, hfields, rfl⟩ := ok_of_map_eq_ok h
    obtain ⟨hnames, hinside⟩ := forall₂_fieldsAt hfields
    refine .shape rfl hnames (fun name s hone => ?_) ?_
    · rw [hone] at hnames
      cases hnames
    · rw [inside, Json.specsInside, List.map_map]
      · exact hinside
      · simp

theorem reading_of_gives {f : Fragment} {s : Spec} (h : f.Gives s) : Reading f s := by
  obtain ⟨p, json⟩ := f
  rw [Gives] at h
  cases json with
  | string name => exact reading_string h
  | array items => exact reading_array h
  | object members => exact reading_object h
  | _ => cases h

/-- The parts of a spec that was read were read from the fragments inside. -/
theorem Reading.forall₂_parts {f : Fragment} {s : Spec} (h : Reading f s) : List.Forall₂ Gives f.inside s.parts := by
  cases h with
  | leaf hjson _ =>
    rw [inside, hjson]
    exact .nil
  | listOf hinside => exact hinside
  | combine op hinside =>
    rw [parts_combine]
    exact hinside
  | shape _ _ _ hinside => exact hinside

/-- A spec that was read has a form of its own, if no name stands twice in the data. -/
theorem Reading.hasForm {f : Fragment} {s : Spec} (h : Reading f s) (hnames : f.json.NamesDistinct) : s.HasForm := by
  cases h with
  | leaf _ hblank => exact hblank
  | listOf _ => trivial
  | combine op _ => exact hasForm_combine op _
  | shape hjson hfst hsigil _ =>
    rw [hjson, Json.namesDistinct_object] at hnames
    refine ⟨?_, hsigil⟩
    rw [hfst]
    exact hnames.1

theorem writable_of_gives {f : Fragment} {s : Spec} (hnames : f.json.NamesDistinct) (h : f.Gives s) : s.Writable := by
  -- along the fragments inside: each part was read from one of them, and no name stands twice there either
  induction f using Fragment.wellFounded_inside.induction generalizing s with
  | _ f ih =>
    have hreading := reading_of_gives h
    refine writable_iff.2 ⟨hreading.hasForm hnames, fun t ht => ?_⟩
    obtain ⟨g, hg, hgives⟩ := exists_gives_of_mem hreading.forall₂_parts ht
    refine ih g hg ?_ hgives
    obtain ⟨entry, hentry, rfl⟩ := List.mem_map.1 hg
    exact (Json.follow?_of_mem_specsInside hnames hentry).2

end Spec

/-! ## The specs that JSON data can stand for -/

/-- A spec comes out of JSON data, in which no object has two members with one name, exactly if it can be written: no
    predicate stands in it, no leaf with a blank name, no tuple that is written as an operator, and no shape in which a
    name stands twice or whose only name is marked as an operator. A spec that can be written is read back from what it
    is written as. -/
theorem ofJson_image (s : Spec) :
    ((∃ json : Json, json.NamesDistinct ∧ Spec.ofJson json = .ok s) ↔ s.Writable) ∧
    (s.Writable → s.toJson.NamesDistinct ∧ Spec.ofJson s.toJson = .ok s) := by
  have hwritten : s.Writable → s.toJson.NamesDistinct ∧ Spec.ofJson s.toJson = .ok s :=
    fun h => ⟨Spec.namesDistinct_toJson h, Spec.ofJsonAt_toJson h .root⟩
  refine ⟨⟨?_, fun h => ⟨s.toJson, hwritten h⟩⟩, hwritten⟩
  rintro ⟨json, hnames, hread⟩
  have hgives : (Fragment.mk .root json).Gives s := hread
  exact Spec.writable_of_gives hnames hgives

/-- A spec in list form with an alias comes out in map form. A shape whose only field is named like an operator does not
    come out of any data. -/
theorem ofJson_image_alias :
    let s : Spec := .operator .any [.listOf (.leaf "a | b"), .shape [("$x", .tuple []), ("y", .leaf "c")]]
    let json : Json := .array [.string "$or", .array [.string "a | b"],
      .object [("$x", .object [("$tuple", .array [])]), ("y", .string "c")]]
    (Spec.ofJson json = .ok s ∧ s.Writable ∧ Spec.ofJson (.object [("$any", .array [.array [.string "a | b"],
      .object [("$x", .object [("$tuple", .array [])]), ("y", .string "c")]])]) = .ok s) ∧
    ¬∃ data : Json, data.NamesDistinct ∧ Spec.ofJson data = .ok (.shape [("$x", .leaf "c")]) := by
  intro s json
  have hnames : json.NamesDistinct := by
    simp [json, Json.NamesDistinct, Json.ItemsNamesDistinct, Json.MembersNamesDistinct]
  have hread : Spec.ofJson json = .ok s := rfl
  have hwritable : s.Writable := (ofJson_image s).1.1 ⟨json, hnames, hread⟩
  refine ⟨⟨hread, hwritable, ((ofJson_image s).2 hwritable).2⟩, fun h => ?_⟩
  have hform := (Spec.writable_iff.1 ((ofJson_image _).1.1 h)).1
  have hsigil := hform.2 "$x" (.leaf "c") rfl
  cases hsigil

end Conform

import Conform.Proofs.Written
import Conform.Proofs.Place
/- The two forms of an operator. Data stand for the same spec wherever they stand, or are at fault in the same way with
   another place (`Spec.ofJsonAt_eq`). So operands can be read apart from the operator that they belong to: what comes of
   that are their specs or the first operand that stands for none, with its fault (`Spec.operandsApart`). The form as a
   list and the form as a map, with any keywords of one operator, both give that, and they differ in the steps to an
   operand alone (`operator_forms_agree`). -/
namespace Conform

namespace SpecError

/-- The fault as it is found when the data that were read stand further inside. -/
def under (e : SpecError) (lead : List Segment) : SpecError :=
  match e with
  | emptySpec place => emptySpec (place.under lead)
  | unknownOperator keyword place => unknownOperator keyword (place.under lead)
  | invalidSpec place reason => invalidSpec (place.under lead) reason
  | unknownType name available => unknownType name available
  | depthExceeded depth limit => depthExceeded depth limit

theorem place?_under (e : SpecError) (lead : List Segment) :
    (e.under lead).place? = e.place?.map fun place => place.under lead := by
  cases e <;> rfl

end SpecError

namespace Spec

/-! ## Reading further inside -/

/-- Further inside, the data are read as the same spec or as the same fault with another place. -/
def ReadsAlike (json : Json) : Prop :=
  ∀ p lead, ofJsonAt (Path.under p lead) json = (ofJsonAt p json).mapError fun e => e.under lead

theorem mapError_map {ε ε' α β : Type} (answer : Except ε α) (f : α → β) (g : ε → ε') :
    (answer.map f).mapError g = (answer.mapError g).map f := by
  cases answer <;> rfl

theorem operandsAt_under {items : List Json} (h : ∀ x ∈ items, ReadsAlike x) (p : Path) (lead : List Segment)
    (start : Nat) : operandsAt (p.under lead) start items = (operandsAt p start items).mapError fun e => e.under lead := by
  induction items generalizing start with
  | nil => rfl
  | cons x rest ih =>
    obtain ⟨hx, hrest⟩ := List.forall_mem_cons.1 h
    rw [operandsAt, operandsAt, Path.index_under, hx, ih hrest]
    cases ofJsonAt (p.index start) x with
    | error e => rfl
    | ok s => cases operandsAt p (start + 1) rest <;> rfl

theorem fieldsAt_under {members : List (String × Json)} (h : ∀ member ∈ members, ReadsAlike member.2) (p : Path)
    (lead : List Segment) : fieldsAt (p.under lead) members = (fieldsAt p members).mapError fun e => e.under lead := by
  induction members with
  | nil => rfl
  | cons member rest ih =>
    obtain ⟨hmember, hrest⟩ := List.forall_mem_cons.1 h
    rw [fieldsAt, fieldsAt, Path.key_under, hmember, ih hrest]
    cases ofJsonAt (p.key member.1) member.2 with
    | error e => rfl
    | ok s => cases fieldsAt p rest <;> rfl

theorem readsAlike_string (name : String) : ReadsAlike (.string name) := by
  intro p lead
  simp only [ofJsonAt, leafAt]
  cases (leafNames name).any String.isEmpty <;> rfl

theorem readsAlike_array {items : List Json} (h : ∀ x ∈ items, ReadsAlike x) : ReadsAlike (.array items) := by
  intro p lead
  match items with
  | [] => rfl
  | [item] =>
    simp only [ofJsonAt]
    rw [Path.index_under, h item (List.mem_singleton.2 rfl), mapError_map]
  | head :: second :: rest =>
    simp only [ofJsonAt]
    cases headOperator? head with
    | none => rfl
    | some op =>
      have hoperands := operandsAt_under (fun x hx => h x (List.mem_cons_of_mem head hx)) p lead 1
      simp only [hoperands, mapError_map]

theorem readsAlike_member (name : String) {operand : Json} (h : ReadsAlike operand)
    (hitems : ∀ items, operand = .array items → ∀ x ∈ items, ReadsAlike x) : ReadsAlike (.object [(name, operand)]) := by
  intro p lead
  cases hsigil : hasSigil name with
  | false => rw [ofJsonAt_unmarked hsigil, ofJsonAt_unmarked hsigil, Path.key_under, h, mapError_map]
  | true =>
    cases hop : Operator.ofKeyword? name with
    | none => cases operand <;> simp only [ofJsonAt, hsigil, hop, if_true] <;> rfl
    | some op =>
      rw [ofJsonAt_operator hsigil hop, ofJsonAt_operator hsigil hop, mapError_map, Path.key_under]
      cases operand with
      | array items => simp only [operandsAt_under (hitems items rfl)]
      | _ => simp only [h (p.key name) lead, mapError_map]

theorem readsAlike_object {members : List (String × Json)} (h : ∀ member ∈ members, ReadsAlike member.2)
    (hitems : ∀ name items, members = [(name, .array items)] → ∀ x ∈ items, ReadsAlike x) :
    ReadsAlike (.object members) := by
  match members with
  | [] => exact fun p lead => rfl
  | [(name, operand)] =>
    refine readsAlike_member name (h (name, operand) (List.mem_singleton.2 rfl)) fun items hoperand => ?_
    exact hitems name items (by rw [hoperand])
  | first :: second :: rest =>
    intro p lead
    simp only [ofJsonAt]
    rw [fieldsAt_under h, mapError_map]

theorem readsAlike (json : Json) : ReadsAlike json := by
  -- on the size, as the operands in a map stand two steps inside
  have ih : ∀ x, sizeOf x < sizeOf json → ReadsAlike x := fun x _ => readsAlike x
  cases json with
  | null | bool | int | float => exact fun p lead => rfl
  | string name => exact readsAlike_string name
  | array items =>
    refine readsAlike_array fun x hx => ih x ?_
    have hlt := List.sizeOf_lt_of_mem hx
    rw [Json.array.sizeOf_spec]
    omega
  | object members =>
    refine readsAlike_object (fun member hmember => ih member.2 ?_) fun name items hmembers x hx => ih x ?_
    · have hlt := List.sizeOf_lt_of_mem hmember
      rw [Prod.mk.sizeOf_spec] at hlt
      rw [Json.object.sizeOf_spec]
      omega
    · subst hmembers
      have hlt := List.sizeOf_lt_of_mem hx
      simp only [Json.object.sizeOf_spec, Json.array.sizeOf_spec, List.cons.sizeOf_spec, Prod.mk.sizeOf_spec]
      omega
termination_by sizeOf json

/-- What data stand for at a place is what they stand for by themselves. -/
theorem ofJsonAt_eq (p : Path) (json : Json) : ofJsonAt p json = (ofJson json).mapError fun e => e.under p.segments := by
  have hplace : Path.root.under p.segments = p := congrArg Path.mk (List.append_nil p.segments)
  rw [ofJson, ← readsAlike json .root p.segments, hplace]

theorem exists_place_of_ofJson_eq_error {json : Json} {e : SpecError} (h : ofJson json = .error e) :
    ∃ p, e.place? = some p := by
  have hfault : Fragment.readingFault? ⟨.root, json⟩ = some e := SpecError.ofAnswer?_eq_some_iff.2 h
  obtain ⟨pos, f, hfirst⟩ := searches_readingFault?.eq_some_iff.1 hfault
  exact ⟨f.place, f.place?_fault? hfirst.faulty⟩

/-! ## Operands -/

/-- The first of some operands that stands for no spec: its index, and its fault when it is read by itself. -/
structure OperandFault where
  index : Nat
  fault : SpecError

/-- The fault of the operand as it is found behind the steps to it. -/
def OperandFault.found (f : OperandFault) (steps : Nat → List Segment) : SpecError :=
  f.fault.under (steps f.index)

/-- The specs of operands that are read each by itself, from the first to the last. -/
def operandsApart : List Json → Except OperandFault (List Spec)
  | [] => .ok []
  | item :: rest =>
    match ofJson item, operandsApart rest with
    | .error e, _ => .error ⟨0, e⟩
    | .ok _, .error f => .error ⟨f.index + 1, f.fault⟩
    | .ok s, .ok others => .ok (s :: others)

/-- The operands of an operator stand for what they stand for by themselves. -/
theorem operandsAt_eq (p : Path) (start : Nat) (items : List Json) :
    operandsAt p start items =
      (operandsApart items).mapError fun f => f.found fun i => p.segments ++ [.index (i + start)] := by
  induction items generalizing start with
  | nil => rfl
  | cons item rest ih =>
    rw [operandsAt, ofJsonAt_eq, ih, operandsApart]
    cases ofJson item with
    | error e =>
      show Except.error (e.under (p.index start).segments) = Except.error (e.under (p.segments ++ [.index (0 + start)]))
      rw [Nat.zero_add]
      rfl
    | ok s =>
      cases operandsApart rest with
      | error f =>
        have hindex : f.index + 1 + start = f.index + (start + 1) := by omega
        show Except.error (f.fault.under (p.segments ++ [.index (f.index + (start + 1))])) =
          Except.error (f.fault.under (p.segments ++ [.index (f.index + 1 + start)]))
        rw [hindex]
      | ok others => rfl

theorem of_operandsApart_eq_error {items : List Json} {f : OperandFault} (h : operandsApart items = .error f) :
    ∃ item, items[f.index]? = some item ∧ ofJson item = .error f.fault ∧
      ∀ x ∈ items.take f.index, ∃ s, ofJson x = .ok s := by
  induction items generalizing f with
  | nil => cases h
  | cons item rest ih =>
    rw [operandsApart] at h
    cases hitem : ofJson item with
    | error e =>
      rw [hitem] at h
      cases h
      exact ⟨item, rfl, hitem, fun x hx => absurd hx List.not_mem_nil⟩
    | ok s =>
      cases hrest : operandsApart rest with
      | ok others =>
        rw [hitem, hrest] at h
        cases h
      | error g =>
        rw [hitem, hrest] at h
        cases h
        obtain ⟨x, hx, hfault, hbefore⟩ := ih hrest
        exact ⟨x, hx, hfault, List.forall_mem_cons.2 ⟨⟨s, hitem⟩, hbefore⟩⟩

/-! ## Both forms -/

theorem hasSigil_of_ofKeyword? {k : String} {op : Operator} (h : Operator.ofKeyword? k = some op) :
    hasSigil k = true := by
  have hmeanings : ∀ meaning ∈ Operator.meanings, hasSigil meaning.1 = true := by decide
  obtain ⟨meaning, hfind, -⟩ := Option.map_eq_some_iff.1 h
  have hkeyword : meaning.1 = k := by simpa using List.find?_some hfind
  rw [← hkeyword]
  exact hmeanings meaning (List.mem_of_find?_eq_some hfind)

variable {k : String} {op : Operator}

theorem ofJson_listForm (hk : Operator.ofKeyword? k = some op) {operands : List Json} (hne : operands ≠ []) :
    ofJson (.array (.string k :: operands)) =
      ((operandsApart operands).mapError fun f => f.found fun i => [.index (i + 1)]).map (combine op) := by
  obtain ⟨first, rest, rfl⟩ := List.exists_cons_of_ne_nil hne
  have hread : ofJson (.array (.string k :: first :: rest)) = (operandsAt .root 1 (first :: rest)).map (combine op) := by
    simp only [ofJson, ofJsonAt, headOperator?, hk]
  rw [hread, operandsAt_eq]
  rfl

theorem ofJson_mapForm (hk : Operator.ofKeyword? k = some op) (operands : List Json) :
    ofJson (.object [(k, .array operands)]) =
      ((operandsApart operands).mapError fun f => f.found fun i => [.key k, .index i]).map (combine op) := by
  rw [ofJson, ofJsonAt_operator (hasSigil_of_ofKeyword? hk) hk]
  exact congrArg _ (operandsAt_eq (Path.root.key k) 0 operands)

end Spec

/-- A list that starts with a keyword and a map from a keyword of the same operator to the other items of the list stand for
    the same spec. If they stand for none, the first of these items that stands for no spec is to blame in both of them:
    its fault is found behind its index in the list, or behind the keyword and its index among the operands. -/
theorem operator_forms_agree {k k' : String} {op : Operator} (hk : Operator.ofKeyword? k = some op)
    (hk' : Operator.ofKeyword? k' = some op) {rest : List Json} (hne : rest ≠ []) :
    let listed := Spec.ofJson (.array (.string k :: rest))
    let mapped := Spec.ofJson (.object [(k', .array rest)])
    (∀ s, listed = .ok s ↔ mapped = .ok s) ∧
    ((∀ s, listed ≠ .ok s) → ∃ i item e place, rest[i]? = some item ∧ (∀ x ∈ rest.take i, ∃ s, Spec.ofJson x = .ok s) ∧
      Spec.ofJson item = .error e ∧ e.place? = some place ∧
      listed = .error (e.under [.index (i + 1)]) ∧ mapped = .error (e.under [.key k', .index i])) ∧
    (∀ e e', listed = .error e → mapped = .error e' → ∀ i steps,
      e.place? = some ⟨.index (i + 1) :: steps⟩ ↔ e'.place? = some ⟨.key k' :: .index i :: steps⟩) := by
  intro listed mapped
  have hlisted : listed = _ := Spec.ofJson_listForm hk hne
  have hmapped : mapped = _ := Spec.ofJson_mapForm hk' rest
  rw [hlisted, hmapped]
  cases hoperands : Spec.operandsApart rest with
  | ok specs => exact ⟨fun s => Iff.rfl, fun h => absurd rfl (h _), fun e e' h => nomatch h⟩
  | error f =>
    obtain ⟨item, hitem, hfault, hbefore⟩ := Spec.of_operandsApart_eq_error hoperands
    obtain ⟨place, hplace⟩ := Spec.exists_place_of_ofJson_eq_error hfault
    refine ⟨fun s => iff_of_false (fun h => nomatch h) (fun h => nomatch h),
      fun _ => ⟨f.index, item, f.fault, place, hitem, hbefore, hfault, hplace, rfl, rfl⟩, fun e e' he he' i steps => ?_⟩
    obtain rfl : f.fault.under [.index (f.index + 1)] = e := Except.error.inj he
    obtain rfl : f.fault.under [.key k', .index f.index] = e' := Except.error.inj he'
    rw [SpecError.place?_under, SpecError.place?_under, hplace]
    simp [Path.under]

/-- Both forms are the same spec with other keywords of the operator, and the empty list inside the second operand is
    found by both, each with its own steps to the operand. -/
theorem operator_forms_agree_nested :
    let rest : List Json := [.string "even", .object [("$not", .array [.string "zero"])]]
    let faulty : List Json := [.string "even", .object [("$not", .array [.string "zero", .array []])]]
    let e : SpecError := .emptySpec ⟨[.index 2, .key "$not", .index 1]⟩
    Operator.ofKeyword? "$or" = some .any ∧ Operator.ofKeyword? "$some" = some .any ∧ rest ≠ [] ∧ faulty ≠ [] ∧
      Spec.ofJson (.object [("$some", .array rest)]) =
        .ok (.operator .any [.leaf "even", .operator .not [.leaf "zero"]]) ∧
      Spec.ofJson (.array (.string "$or" :: faulty)) = .error e ∧
      ∃ e', Spec.ofJson (.object [("$some", .array faulty)]) = .error e' ∧
        e'.place? = some ⟨[.key "$some", .index 1, .key "$not", .index 1]⟩ := by
  intro rest faulty e
  have hk : Operator.ofKeyword? "$or" = some .any := by decide
  have hk' : Operator.ofKeyword? "$some" = some .any := by decide
  have hrest : rest ≠ [] := List.cons_ne_nil _ _
  have hfaulty : faulty ≠ [] := List.cons_ne_nil _ _
  refine ⟨hk, hk', hrest, hfaulty, ((operator_forms_agree hk hk' hrest).1 _).1 rfl, rfl, _, rfl, ?_⟩
  exact ((operator_forms_agree hk hk' hfaulty).2.2 e _ rfl rfl 1 [.key "$not", .index 1]).1 rfl

end Conform

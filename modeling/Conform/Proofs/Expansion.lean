import Conform.Expansion
import Conform.Proofs.Reach
import Conform.Proofs.Surface
/- What expansion does to values. It is not seen from outside (`sameSurface_apply`). Cutting a key at all its dots leaves
   keys without dots, and merging brings in no key of its own, so nothing is left to expand deeply in what was expanded
   deeply (`hasDottedKey_apply_deep`). Expansion looks at objects alone: a change of values that keeps objects and their
   keys may be done before it or after it (`ActsOnFields.apply_deep`). -/
namespace Conform

namespace Text

theorem splitOnceChars_eq_none {sep : Char} {cs : List Char} (h : sep ∉ cs) : splitOnceChars sep cs = none := by
  induction cs with
  | nil => rfl
  | cons c cs ih =>
    rw [List.mem_cons, not_or] at h
    rw [splitOnceChars, if_neg (Ne.symm h.1), ih h.2]
    rfl

end Text

namespace Expansion

/-! ## Expansion is not seen from outside -/

theorem mergeField_ne_nil (key : String) (fields : List (String × Value)) (v : Value) :
    mergeField key fields v ≠ [] := by
  unfold mergeField
  split
  · split <;> exact Entries.insert_ne_nil _ _ _
  · exact Entries.insert_ne_nil _ _ _

theorem mergeFields_ne_nil {fields : List (String × Value)} (h : fields ≠ []) (incoming : List (String × Value)) :
    mergeFields fields incoming ≠ [] := by
  induction incoming generalizing fields with
  | nil => exact h
  | cons entry rest ih => exact ih (mergeField_ne_nil _ _ _)

theorem foldl_place_ne_nil (mode : Expansion) {fields : List (String × Value)} (h : fields ≠ [])
    (entries : List (String × Value)) : entries.foldl mode.place fields ≠ [] := by
  induction entries generalizing fields with
  | nil => exact h
  | cons entry rest ih => exact ih (mergeField_ne_nil _ _ _)

/-- Fields that meet are stored as one, but never as none. -/
theorem placeAll_eq_nil_iff (mode : Expansion) (entries : List (String × Value)) :
    placeAll mode entries = [] ↔ entries = [] := by
  cases entries with
  | nil => exact Iff.rfl
  | cons entry rest =>
    exact iff_of_false (foldl_place_ne_nil mode (mergeField_ne_nil _ _ _) rest) (List.cons_ne_nil _ _)

theorem expandDeepFields_eq (fields : List (String × Value)) :
    expandDeepFields fields = Entries.mapValues expandDeep fields := by
  induction fields with
  | nil => rfl
  | cons entry rest ih =>
    rw [expandDeepFields, ih]
    rfl

theorem apply_of_applies {mode : Expansion} {v : Value} (h : mode.applies v = true) :
    apply (some mode) v = mode.expand v := by
  rw [apply, Option.bind_some, expand?, if_pos h]
  rfl

theorem apply_of_not_applies {mode : Expansion} {v : Value} (h : mode.applies v = false) : apply (some mode) v = v := by
  rw [apply, Option.bind_some, expand?, h]
  rfl

theorem apply_cases (mode : Option Expansion) (v : Value) :
    apply mode v = v ∨ ∃ tag fields fields', v = .object tag fields ∧ apply mode v = .object tag fields' ∧
      (fields = [] ↔ fields' = []) := by
  rcases mode with _ | mode
  · exact .inl rfl
  · cases happlies : mode.applies v with
    | false => exact .inl (apply_of_not_applies happlies)
    | true =>
      rw [apply_of_applies happlies]
      cases v with
      | object tag fields =>
        cases mode with
        | shallow => exact .inr ⟨tag, fields, _, rfl, rfl, (placeAll_eq_nil_iff _ _).symm⟩
        | deep =>
          refine .inr ⟨tag, fields, _, rfl, rfl, ?_⟩
          rw [placeAll_eq_nil_iff, expandDeepFields_eq, Entries.mapValues, List.map_eq_nil_iff]
      | _ => exact .inl (by cases mode <;> rfl)

theorem sameSurface_apply (mode : Option Expansion) (v : Value) : v.SameSurface (apply mode v) := by
  rcases apply_cases mode v with h | ⟨tag, fields, fields', rfl, h, hnil⟩ <;> rw [h]
  · exact .refl v
  · exact .object hnil

theorem apply_of_not_isObject (mode : Option Expansion) {v : Value} (h : v.isObject = false) : apply mode v = v := by
  rcases apply_cases mode v with h' | ⟨tag, fields, fields', rfl, -, -⟩
  · exact h'
  · cases h

theorem hasDottedKey_of_not_isObject {v : Value} (h : v.isObject = false) : hasDottedKey v = false := by
  cases v with
  | object tag fields => cases h
  | _ => rfl

theorem mergeField_of_not_isObject (key : String) (fields : List (String × Value)) {v : Value}
    (h : v.isObject = false) : mergeField key fields v = Entries.insert key v fields := by
  cases v with
  | object tag fields => cases h
  | _ => rfl

theorem mergeField_object_of_some {key : String} {fields existing : List (String × Value)} {kept : Option String}
    (tag : Option String) (incoming : List (String × Value))
    (h : Entries.find? key fields = some (.object kept existing)) :
    mergeField key fields (.object tag incoming) =
      Entries.insert key (.object kept (mergeFields existing incoming)) fields := by
  rw [mergeField, h]

theorem mergeField_object_of_ne {key : String} {fields : List (String × Value)} (tag : Option String)
    (incoming : List (String × Value)) (h : ∀ kept existing, Entries.find? key fields ≠ some (.object kept existing)) :
    mergeField key fields (.object tag incoming) = Entries.insert key (.object tag incoming) fields := by
  rw [mergeField]
  split
  · next kept existing hfind => exact absurd hfind (h kept existing)
  · rfl

theorem place_eq (mode : Expansion) (fields : List (String × Value)) (entry : String × Value) :
    mode.place fields entry =
      mergeField (mode.keyPath entry.1).1 fields (nest (mode.keyPath entry.1).2 entry.2) := rfl

theorem expandDeep_of_not_isObject {v : Value} (h : v.isObject = false) : expandDeep v = v := by
  cases v with
  | object tag fields => cases h
  | _ => rfl

/-! ## What expansion keeps -/

/-- A property of values, with what it comes to for the fields of an object and what it asks of keys, that values keep
    when they are put into fields. -/
structure Composable (K : String → Prop) (P : Value → Prop) (Q : List (String × Value) → Prop) : Prop where
  object : ∀ tag fields, P (.object tag fields) ↔ Q fields
  nil : Q []
  mem : ∀ {fields}, Q fields → ∀ entry ∈ fields, K entry.1 ∧ P entry.2
  insert : ∀ {key fields v}, K key → Q fields → P v → Q (Entries.insert key v fields)

namespace Composable
variable {K : String → Prop} {P : Value → Prop} {Q : List (String × Value) → Prop} (h : Composable K P Q)
include h

theorem mergeField {v : Value} (hv : P v) {key : String} (hkey : K key) {fields : List (String × Value)}
    (hfields : Q fields) : Q (mergeField key fields v) := by
  induction v using Value.inductionOnFields generalizing key fields with
  | other v hobject =>
    rw [mergeField_of_not_isObject key fields hobject]
    exact h.insert hkey hfields hv
  | object tag incoming ih =>
    have hincoming := h.mem ((h.object tag incoming).1 hv)
    -- the fields of the object come in one after the other, each into a table with the property
    have hmerge : ∀ existing, Q existing → Q (mergeFields existing incoming) := by
      clear hv
      intro existing hexisting
      induction incoming generalizing existing with
      | nil => exact hexisting
      | cons entry rest ihrest =>
        obtain ⟨hentry, hrest⟩ := List.forall_mem_cons.1 hincoming
        obtain ⟨ihentry, ih⟩ := List.forall_mem_cons.1 ih
        exact ihrest ih hrest _ (ihentry hentry.2 hentry.1 hexisting)
    by_cases hmeets : ∃ kept existing, Entries.find? key fields = some (.object kept existing)
    · obtain ⟨kept, existing, hfind⟩ := hmeets
      rw [mergeField_object_of_some tag incoming hfind]
      have hexisting := (h.mem hfields (key, .object kept existing) (Entries.mem_of_find? hfind)).2
      exact h.insert hkey hfields ((h.object kept _).2 (hmerge existing ((h.object kept existing).1 hexisting)))
    · rw [mergeField_object_of_ne tag incoming fun kept existing hfind => hmeets ⟨kept, existing, hfind⟩]
      exact h.insert hkey hfields hv

theorem nest {keys : List String} {v : Value} (hkeys : ∀ key ∈ keys, K key) (hv : P v) : P (nest keys v) := by
  induction keys with
  | nil => exact hv
  | cons key rest ih =>
    obtain ⟨hkey, hrest⟩ := List.forall_mem_cons.1 hkeys
    exact (h.object none _).2 (h.insert hkey h.nil (ih hrest))

/-- Where the keys stand for keys with their property, expansion keeps the property of the fields. -/
theorem placeAll {mode : Expansion} {entries : List (String × Value)}
    (hkeys : ∀ entry ∈ entries, K (mode.keyPath entry.1).1 ∧ ∀ key ∈ (mode.keyPath entry.1).2, K key)
    (hentries : ∀ entry ∈ entries, P entry.2) : Q (placeAll mode entries) := by
  suffices hfold : ∀ fields, Q fields → Q (entries.foldl mode.place fields) from hfold [] h.nil
  induction entries with
  | nil => exact fun fields hfields => hfields
  | cons entry rest ih =>
    obtain ⟨hkey, hkeys⟩ := List.forall_mem_cons.1 hkeys
    obtain ⟨hentry, hrest⟩ := List.forall_mem_cons.1 hentries
    exact fun fields hfields => ih hkeys hrest _ (h.mergeField (h.nest hkey.2 hentry) hkey.1 hfields)

/-- What every value has that is no object, deep expansion gives to all values, where the keys that are reached stand for keys
    with their property. -/
theorem expandDeep (hother : ∀ w : Value, w.isObject = false → P w) {v : Value}
    (hkeys : v.EveryKey fun key => K (keyPath .deep key).1 ∧ ∀ k ∈ (keyPath .deep key).2, K k) :
    P (Expansion.expandDeep v) := by
  induction v using Value.inductionOnFields with
  | other v hobject =>
    rw [expandDeep_of_not_isObject hobject]
    exact hother v hobject
  | object tag fields ih =>
    have hfields := Value.everyKey_iff.1 hkeys
    rw [Expansion.expandDeep, expandDeepFields_eq, h.object]
    refine h.placeAll (List.forall_mem_map.2 fun entry hentry => ?_) (List.forall_mem_map.2 fun entry hentry => ?_)
    · exact (hfields entry hentry).1
    · exact ih entry hentry (hfields entry hentry).2

end Composable

theorem composable_everyKey (K : String → Prop) :
    Composable K (Value.EveryKey K) (fun fields => ∀ entry ∈ fields, K entry.1 ∧ entry.2.EveryKey K) where
  object _ _ := Value.everyKey_iff
  nil := nofun
  mem h := h
  insert := by
    intro key fields v hkey hfields hv entry hentry
    rcases Entries.mem_of_mem_insert hentry with rfl | hentry
    · exact ⟨hkey, hv⟩
    · exact hfields entry hentry

/-- Every key of the expanded value is one of those that a key of the value stands for. -/
theorem everyKey_expandDeep {K : String → Prop} {v : Value}
    (h : v.EveryKey fun key => K (keyPath .deep key).1 ∧ ∀ k ∈ (keyPath .deep key).2, K k) :
    (expandDeep v).EveryKey K :=
  (composable_everyKey K).expandDeep (fun _ => Value.everyKey_of_not_isObject) h

/-! ## Nothing is left to expand deeply -/

theorem anyDottedKey_eq_false_iff {fields : List (String × Value)} :
    anyDottedKey fields = false ↔ ∀ entry ∈ fields, isDotted entry.1 = false ∧ hasDottedKey entry.2 = false := by
  induction fields with
  | nil => simp [anyDottedKey]
  | cons entry rest ih =>
    rw [anyDottedKey, Bool.or_eq_false_iff, Bool.or_eq_false_iff, ih, List.forall_mem_cons]

theorem isDotted_eq_false_of_notMem {key : String} (h : '.' ∉ key.toList) : isDotted key = false := by
  rw [isDotted, Text.splitOnce, Text.splitOnceChars_eq_none h]
  rfl

theorem isDotted_keyPath_deep (key : String) :
    isDotted (keyPath .deep key).1 = false ∧ ∀ k ∈ (keyPath .deep key).2, isDotted k = false := by
  unfold keyPath
  cases hkey : isDotted key with
  | false => simp [hkey]
  | true =>
    have hparts : ∀ part ∈ Text.split '.' key, isDotted part = false := by
      intro part hpart
      obtain ⟨cs, hcs, rfl⟩ := List.mem_map.1 hpart
      refine isDotted_eq_false_of_notMem ?_
      rw [String.toList_ofList]
      exact Text.not_mem_of_mem_splitChars hcs
    obtain ⟨head, rest, hsplit⟩ := List.exists_cons_of_ne_nil (Text.split_ne_nil '.' key)
    rw [hsplit] at hparts
    simp only [hsplit]
    exact List.forall_mem_cons.1 hparts

theorem hasDottedKey_eq_false_iff {v : Value} : hasDottedKey v = false ↔ v.EveryKey (isDotted · = false) := by
  induction v using Value.inductionOnFields with
  | other v hobject => exact iff_of_true (hasDottedKey_of_not_isObject hobject) (Value.everyKey_of_not_isObject hobject)
  | object tag fields ih =>
    rw [hasDottedKey, anyDottedKey_eq_false_iff, Value.everyKey_iff]
    exact forall₂_congr fun entry hentry => and_congr_right fun _ => ih entry hentry

theorem hasDottedKey_expandDeep (v : Value) : hasDottedKey (expandDeep v) = false :=
  hasDottedKey_eq_false_iff.2 (everyKey_expandDeep fun _ _ entry _ => isDotted_keyPath_deep entry.1)

theorem apply_deep_eq (v : Value) : apply (some .deep) v = if hasDottedKey v then expandDeep v else v := by
  cases h : hasDottedKey v with
  | true => exact apply_of_applies h
  | false => exact apply_of_not_applies h

theorem hasDottedKey_apply_deep (v : Value) : hasDottedKey (apply (some .deep) v) = false := by
  rw [apply_deep_eq]
  cases h : hasDottedKey v with
  | false => exact h
  | true => exact hasDottedKey_expandDeep v

theorem apply_deep_of_not_hasDottedKey {v : Value} (h : hasDottedKey v = false) : apply (some .deep) v = v := by
  rw [apply_deep_eq, h]
  rfl

theorem hasDottedKey_fieldOrUndefined {v : Value} (h : hasDottedKey v = false) (key : String) :
    hasDottedKey (v.fieldOrUndefined key) = false := by
  rw [Value.fieldOrUndefined, Value.field?]
  cases hfind : Entries.find? key v.fields with
  | none => rfl
  | some x =>
    have hmem := Entries.mem_of_find? hfind
    cases v with
    | object tag fields => exact (anyDottedKey_eq_false_iff.1 h _ hmem).2
    | _ => cases hmem

/-! ## Expansion looks at objects alone -/

/-- The function changes the values in the fields of objects, and makes no other value an object. -/
structure ActsOnFields (f : Value → Value) : Prop where
  object : ∀ tag fields, f (.object tag fields) = .object tag (Entries.mapValues f fields)
  isObject : ∀ v, v.isObject = false → (f v).isObject = false

namespace ActsOnFields
variable {f : Value → Value} (h : ActsOnFields f)
include h

theorem fieldOrUndefined (hundefined : f .undefined = .undefined) (v : Value) (key : String) :
    (f v).fieldOrUndefined key = f (v.fieldOrUndefined key) := by
  have hfields : (f v).fields = Entries.mapValues f v.fields := by
    cases hv : v.isObject with
    | true =>
      cases v with
      | object tag fields =>
        rw [h.object]
        rfl
      | _ => cases hv
    | false =>
      rw [Value.fields_of_not_isObject hv, Value.fields_of_not_isObject (h.isObject v hv)]
      rfl
  rw [Value.fieldOrUndefined, Value.fieldOrUndefined, Value.field?, Value.field?, hfields, Entries.find?_mapValues]
  cases Entries.find? key v.fields with
  | none => exact hundefined.symm
  | some x => rfl

theorem nest (keys : List String) (v : Value) : Expansion.nest keys (f v) = f (Expansion.nest keys v) := by
  induction keys with
  | nil => rfl
  | cons key rest ih =>
    show Value.object none [(key, Expansion.nest rest (f v))] = f (.object none [(key, Expansion.nest rest v)])
    rw [h.object, ih]
    rfl

theorem mergeField (key : String) (fields : List (String × Value)) (v : Value) :
    Expansion.mergeField key (Entries.mapValues f fields) (f v) =
      Entries.mapValues f (Expansion.mergeField key fields v) := by
  induction v using Value.inductionOnFields generalizing key fields with
  | other v hobject =>
    rw [mergeField_of_not_isObject _ _ (h.isObject _ hobject), mergeField_of_not_isObject _ _ hobject,
      Entries.insert_mapValues]
  | object tag incoming ih =>
    have hmerge : ∀ existing, mergeFields (Entries.mapValues f existing) (Entries.mapValues f incoming) =
        Entries.mapValues f (mergeFields existing incoming) := by
      intro existing
      induction incoming generalizing existing with
      | nil => rfl
      | cons entry rest ihrest =>
        obtain ⟨ihentry, ih⟩ := List.forall_mem_cons.1 ih
        rw [mergeFields, ← ihrest ih, ← ihentry]
        rfl
    have hfind := Entries.find?_mapValues f key fields
    by_cases hmeets : ∃ kept existing, Entries.find? key fields = some (.object kept existing)
    · obtain ⟨kept, existing, hmeets⟩ := hmeets
      rw [hmeets, Option.map_some, h.object] at hfind
      rw [h.object, mergeField_object_of_some _ _ hfind, mergeField_object_of_some _ _ hmeets, hmerge, ← h.object,
        Entries.insert_mapValues]
    · have hother : ∀ kept existing, Entries.find? key (Entries.mapValues f fields) ≠ some (.object kept existing) := by
        intro kept existing hsome
        rw [hfind] at hsome
        obtain ⟨w, hw, hfw⟩ := Option.map_eq_some_iff.1 hsome
        cases hobject : w.isObject with
        | true =>
          cases w with
          | object kept existing => exact hmeets ⟨kept, existing, hw⟩
          | _ => cases hobject
        | false =>
          have hfobject := h.isObject w hobject
          rw [hfw] at hfobject
          cases hfobject
      rw [h.object, mergeField_object_of_ne _ _ hother, ← h.object,
        mergeField_object_of_ne _ _ fun kept existing hsome => hmeets ⟨kept, existing, hsome⟩, Entries.insert_mapValues]

theorem hasDottedKey (v : Value) : Expansion.hasDottedKey (f v) = Expansion.hasDottedKey v := by
  induction v using Value.inductionOnFields with
  | other v hobject =>
    rw [hasDottedKey_of_not_isObject hobject]
    exact hasDottedKey_of_not_isObject (h.isObject _ hobject)
  | object tag fields ih =>
    rw [h.object, Expansion.hasDottedKey, Expansion.hasDottedKey]
    induction fields with
    | nil => rfl
    | cons entry rest ihrest =>
      obtain ⟨ihentry, ih⟩ := List.forall_mem_cons.1 ih
      have ihrest := ihrest ih
      rw [Entries.mapValues] at ihrest ⊢
      rw [List.map_cons, anyDottedKey, anyDottedKey, ihentry, ihrest]

theorem placeAll (mode : Expansion) (entries : List (String × Value)) :
    Expansion.placeAll mode (Entries.mapValues f entries) = Entries.mapValues f (Expansion.placeAll mode entries) := by
  suffices hfold : ∀ fields, (Entries.mapValues f entries).foldl mode.place (Entries.mapValues f fields) =
      Entries.mapValues f (entries.foldl mode.place fields) from hfold []
  induction entries with
  | nil => exact fun fields => rfl
  | cons entry rest ih =>
    intro fields
    have hplace : mode.place (Entries.mapValues f fields) (entry.1, f entry.2) =
        Entries.mapValues f (mode.place fields entry) := by
      rw [place_eq, place_eq, h.nest, h.mergeField]
    rw [List.foldl_cons, ← ih, ← hplace]
    rfl

theorem expandDeep (v : Value) : Expansion.expandDeep (f v) = f (Expansion.expandDeep v) := by
  induction v using Value.inductionOnFields with
  | other v hobject => rw [expandDeep_of_not_isObject (h.isObject _ hobject), expandDeep_of_not_isObject hobject]
  | object tag fields ih =>
    have hfields : Entries.mapValues Expansion.expandDeep (Entries.mapValues f fields) =
        Entries.mapValues f (Entries.mapValues Expansion.expandDeep fields) := by
      simp only [Entries.mapValues, List.map_map]
      exact List.map_congr_left fun entry hentry => by rw [Function.comp, Function.comp, ih entry hentry]
    rw [h.object, Expansion.expandDeep, Expansion.expandDeep, h.object, expandDeepFields_eq, expandDeepFields_eq,
      hfields, h.placeAll]

/-- It makes no difference whether values are changed before they are expanded or after it. -/
theorem apply_deep (v : Value) : apply (some .deep) (f v) = f (apply (some .deep) v) := by
  rw [apply_deep_eq, apply_deep_eq, h.hasDottedKey, h.expandDeep]
  cases Expansion.hasDottedKey v <;> rfl

end ActsOnFields

end Expansion

end Conform

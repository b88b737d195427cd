import Conform.Proofs.Expansion
/- Where expansion puts the entries of an object. An entry lands at the first of the keys that its key stands for, so a
   field of the expanded object is made from the entries that land there and from no others (`find?_placeAll_congr`).
   These are the entry of the same name and those whose keys go on behind the name with a dot
   (`eq_or_behind_of_keyPath`). An ordered object without dotted keys is put together again as it was
   (`expand_of_not_applies`), so that nothing shows whether expansion was done or was not needed. -/
namespace Conform

namespace Text

theorem eq_of_splitOnceChars {sep : Char} {cs head rest : List Char} (h : splitOnceChars sep cs = some (head, rest)) :
    cs = head ++ sep :: rest := by
  induction cs generalizing head with
  | nil => cases h
  | cons c cs ih =>
    rw [splitOnceChars] at h
    split at h
    · next hc =>
      cases h
      rw [hc, List.nil_append]
    · obtain ⟨⟨front, back⟩, hsplit, heq⟩ := Option.map_eq_some_iff.1 h
      cases heq
      rw [List.cons_append, ← ih hsplit]

theorem notMem_of_splitOnceChars {sep : Char} {cs head rest : List Char}
    (h : splitOnceChars sep cs = some (head, rest)) : sep ∉ head := by
  induction cs generalizing head with
  | nil => cases h
  | cons c cs ih =>
    rw [splitOnceChars] at h
    split at h
    · cases h
      exact List.not_mem_nil
    · next hc =>
      obtain ⟨⟨front, back⟩, hsplit, heq⟩ := Option.map_eq_some_iff.1 h
      cases heq
      rw [List.mem_cons, not_or]
      exact ⟨Ne.symm hc, ih hsplit⟩

theorem eq_of_splitOnce_dot {s head rest : String} (h : splitOnce '.' s = some (head, rest)) :
    s = head ++ "." ++ rest := by
  obtain ⟨⟨front, back⟩, hsplit, hparts⟩ := Option.map_eq_some_iff.1 h
  cases hparts
  apply String.toList_inj.1
  rw [eq_of_splitOnceChars hsplit]
  simp

theorem intercalate_split_dot (s : String) : ".".intercalate (split '.' s) = s := by
  apply String.toList_inj.1
  rw [String.toList_intercalate, split, List.map_map]
  simpa [Function.comp_def] using intercalate_splitChars '.' s.toList

end Text

namespace Expansion

/-! ## Where an entry lands -/

/-- The key goes on behind the name with a dot. -/
def Behind (name key : String) : Prop :=
  ∃ rest, key = name ++ "." ++ rest

/-- The keys from the outside to the inside under which an entry is stored. -/
def route (mode : Expansion) (key : String) : List String :=
  (mode.keyPath key).1 :: (mode.keyPath key).2

theorem route_ne_nil (mode : Expansion) (key : String) : mode.route key ≠ [] :=
  List.cons_ne_nil _ _

theorem route_of_not_isDotted (mode : Expansion) {key : String} (h : isDotted key = false) : mode.route key = [key] := by
  simp [route, keyPath, h]

theorem route_deep {key : String} (h : isDotted key = true) : route .deep key = Text.split '.' key := by
  obtain ⟨head, rest, hsplit⟩ := List.exists_cons_of_ne_nil (Text.split_ne_nil '.' key)
  simp [route, keyPath, h, hsplit]

/-- With the dots put back between them, these keys are the key of the entry. -/
theorem intercalate_route (mode : Expansion) (key : String) : ".".intercalate (mode.route key) = key := by
  cases hdotted : isDotted key with
  | false => rw [route_of_not_isDotted mode hdotted, String.intercalate_singleton]
  | true =>
    cases mode with
    | deep => rw [route_deep hdotted, Text.intercalate_split_dot]
    | shallow =>
      unfold route keyPath
      rw [hdotted]
      cases hsplit : Text.splitOnce '.' key with
      | none => exact String.intercalate_singleton
      | some parts => exact (Text.eq_of_splitOnce_dot hsplit).symm

/-- A key of which the first keys make up another one is the other one or goes on behind it. -/
theorem eq_or_behind_intercalate {keys : List String} (h : keys ≠ []) (further : List String) :
    ".".intercalate (keys ++ further) = ".".intercalate keys ∨
      Behind (".".intercalate keys) (".".intercalate (keys ++ further)) := by
  cases further with
  | nil => exact .inl (congrArg _ (List.append_nil keys))
  | cons key rest =>
    exact .inr ⟨".".intercalate (key :: rest), String.intercalate_append_of_ne_nil h (List.cons_ne_nil _ _)⟩

/-- An entry that is stored under the keys of another one, or further inside, has the key of the other one, or a key that
    goes on behind it. -/
theorem eq_or_behind_of_route {mode : Expansion} {name key : String} (h : mode.route name <+: mode.route key) :
    key = name ∨ Behind name key := by
  obtain ⟨further, hroute⟩ := h
  have hkey := eq_or_behind_intercalate (mode.route_ne_nil name) further
  rwa [hroute, intercalate_route, intercalate_route] at hkey

theorem eq_or_behind_of_keyPath {mode : Expansion} {name key : String} (h : (mode.keyPath key).1 = name) :
    key = name ∨ Behind name key := by
  have hkey := eq_or_behind_intercalate (List.cons_ne_nil name []) (mode.keyPath key).2
  rwa [List.singleton_append, ← h, ← route, intercalate_route, h, String.intercalate_singleton] at hkey

/-- What is stored when a value comes to lie where one may be already. -/
def meet (present : Option Value) (v : Value) : Value :=
  match v, present with
  | .object _ incoming, some (.object kept existing) => .object kept (mergeFields existing incoming)
  | v, _ => v

theorem meet_none (v : Value) : meet none v = v := by
  cases v <;> rfl

/-- Merging stores one value at the key, and this depends on no other key. -/
theorem mergeField_eq_insert (key : String) (fields : List (String × Value)) (v : Value) :
    mergeField key fields v = Entries.insert key (meet (Entries.find? key fields) v) fields := by
  cases v with
  | object tag incoming =>
    by_cases hmeets : ∃ kept existing, Entries.find? key fields = some (.object kept existing)
    · obtain ⟨kept, existing, hfind⟩ := hmeets
      rw [mergeField_object_of_some tag incoming hfind, hfind]
      rfl
    · -- a value that is no object gives way, like none
      rw [mergeField_object_of_ne tag incoming fun kept existing hfind => hmeets ⟨kept, existing, hfind⟩]
      congr 1
      unfold meet
      split
      · next kept existing hobject hfind => exact absurd ⟨_, _, hfind⟩ hmeets
      · rfl
  | _ =>
    rw [mergeField_of_not_isObject key fields rfl]
    rfl

theorem find?_place_of_ne {mode : Expansion} {name : String} {entry : String × Value}
    (h : (mode.keyPath entry.1).1 ≠ name) (fields : List (String × Value)) :
    Entries.find? name (mode.place fields entry) = Entries.find? name fields := by
  rw [place_eq, mergeField_eq_insert, Entries.find?_insert_of_ne (Ne.symm h)]

theorem find?_place_congr {mode : Expansion} {name : String} {entry : String × Value}
    (h : (mode.keyPath entry.1).1 = name) {fields fields' : List (String × Value)}
    (hfields : Entries.find? name fields = Entries.find? name fields') :
    Entries.find? name (mode.place fields entry) = Entries.find? name (mode.place fields' entry) := by
  rw [place_eq, place_eq, mergeField_eq_insert, mergeField_eq_insert, h, hfields, Entries.find?_insert_self,
    Entries.find?_insert_self]

theorem mem_names_foldl_place {mode : Expansion} {name : String} {entries fields : List (String × Value)} :
    name ∈ Entries.names (entries.foldl mode.place fields) ↔
      name ∈ Entries.names fields ∨ ∃ entry ∈ entries, (mode.keyPath entry.1).1 = name := by
  induction entries generalizing fields with
  | nil => simp
  | cons entry rest ih =>
    rw [List.foldl_cons, ih, place_eq, mergeField_eq_insert, Entries.mem_names_insert]
    simp only [List.mem_cons, exists_eq_or_imp, eq_comm (a := name), or_assoc, or_left_comm]

theorem find?_foldl_place_filter {mode : Expansion} {name : String} (entries : List (String × Value))
    {fields fields' : List (String × Value)} (h : Entries.find? name fields = Entries.find? name fields') :
    Entries.find? name (entries.foldl mode.place fields) =
      Entries.find? name ((entries.filter fun e => decide ((mode.keyPath e.1).1 = name)).foldl mode.place fields') := by
  -- every entry changes the fields, so that what is known of them is how the name is found there
  induction entries generalizing fields fields' with
  | nil => exact h
  | cons entry rest ih =>
    by_cases hlands : (mode.keyPath entry.1).1 = name
    · rw [List.filter_cons_of_pos (by simpa using hlands)]
      exact ih (find?_place_congr hlands h)
    · rw [List.filter_cons_of_neg (by simpa using hlands)]
      exact ih ((find?_place_of_ne hlands fields).trans h)

/-- A field of the expanded object is made from the entries that land there. Tables that agree on these agree on it. -/
theorem find?_placeAll_congr {mode : Expansion} {name : String} {entries entries' : List (String × Value)}
    (hentries : Entries.Sorted entries) (hentries' : Entries.Sorted entries')
    (h : ∀ key, (mode.keyPath key).1 = name → Entries.find? key entries = Entries.find? key entries') :
    Entries.find? name (placeAll mode entries) = Entries.find? name (placeAll mode entries') := by
  -- what lands here are the same entries in the same order, as both tables are sorted
  have hkept : (entries.filter fun e => decide ((mode.keyPath e.1).1 = name)) =
      entries'.filter fun e => decide ((mode.keyPath e.1).1 = name) := by
    refine Entries.eq_of_find?_eq (hentries.filter _) (hentries'.filter _) fun key => ?_
    have hfilter : ∀ t : List (String × Value), Entries.find? key (t.filter fun e => decide ((mode.keyPath e.1).1 = name)) =
        if decide ((mode.keyPath key).1 = name) = true then Entries.find? key t else none :=
      Entries.find?_filter (fun key => decide ((mode.keyPath key).1 = name)) key
    rw [hfilter, hfilter]
    by_cases hkey : (mode.keyPath key).1 = name
    · simp only [hkey, decide_true, if_true, h key hkey]
    · simp only [hkey, decide_false, Bool.false_eq_true, if_false]
  rw [placeAll, placeAll, find?_foldl_place_filter entries rfl, hkept, ← find?_foldl_place_filter entries' rfl]

/-! ## Objects without dotted keys -/

/-- Entries whose keys are not dotted, each behind those that are there, are put at the end one after the other. -/
theorem foldl_place_of_not_isDotted {mode : Expansion} {entries : List (String × Value)}
    (hkeys : ∀ entry ∈ entries, isDotted entry.1 = false) {fields : List (String × Value)}
    (hsorted : Entries.Sorted (fields ++ entries)) : entries.foldl mode.place fields = fields ++ entries := by
  induction entries generalizing fields with
  | nil => exact (List.append_nil fields).symm
  | cons entry rest ih =>
    obtain ⟨hkey, hrest⟩ := List.forall_mem_cons.1 hkeys
    have hlt : ∀ e ∈ fields, e.1 < entry.1 := fun e he =>
      (List.pairwise_append.1 hsorted).2.2 e he entry List.mem_cons_self
    have hnone : Entries.find? entry.1 fields = none :=
      Entries.find?_eq_none_of_forall_ne fun e he => String.ne_of_lt (hlt e he)
    have hplace : mode.place fields entry = fields ++ [entry] := by
      have hpath : mode.keyPath entry.1 = (entry.1, []) := by simp [keyPath, hkey]
      rw [place_eq, hpath, mergeField_eq_insert, hnone, meet_none]
      exact Entries.insert_of_forall_lt hlt entry.2
    rw [List.foldl_cons, hplace]
    rw [List.append_cons] at hsorted
    rw [ih hrest hsorted, List.append_assoc]
    rfl

theorem placeAll_of_not_isDotted (mode : Expansion) {entries : List (String × Value)}
    (hkeys : ∀ entry ∈ entries, isDotted entry.1 = false) (hsorted : Entries.Sorted entries) :
    placeAll mode entries = entries :=
  foldl_place_of_not_isDotted hkeys hsorted

theorem expandDeep_of_not_hasDottedKey {v : Value} (hv : v.Ordered) (h : hasDottedKey v = false) :
    expandDeep v = v := by
  induction v using Value.inductionOnFields with
  | other v hobject => exact expandDeep_of_not_isObject hobject
  | object tag fields ih =>
    obtain ⟨hsorted, hordered⟩ := hv
    have hkeys := anyDottedKey_eq_false_iff.1 h
    have hfields : Entries.mapValues expandDeep fields = fields := by
      refine (List.map_congr_left fun entry hentry => ?_).trans (List.map_id fields)
      rw [ih entry hentry (Value.fieldsOrdered_iff.1 hordered entry hentry) (hkeys entry hentry).2]
      rfl
    rw [expandDeep, expandDeepFields_eq, hfields,
      placeAll_of_not_isDotted .deep (fun entry hentry => (hkeys entry hentry).1) hsorted]

/-- An ordered value in which there is nothing to expand is what its expansion would be. -/
theorem expand_of_not_applies {mode : Expansion} {v : Value} (hv : v.Ordered) (h : mode.applies v = false) :
    mode.expand v = v := by
  cases mode with
  | deep => exact expandDeep_of_not_hasDottedKey hv h
  | shallow =>
    cases v with
    | object tag fields =>
      have hkeys : ∀ entry ∈ fields, isDotted entry.1 = false := by
        simpa [applies, Value.fields] using h
      rw [expand, placeAll_of_not_isDotted .shallow hkeys hv.1]
    | _ => rfl

theorem apply_eq_expand (mode : Expansion) {v : Value} (hv : v.Ordered) : apply (some mode) v = mode.expand v := by
  cases happlies : mode.applies v with
  | true => exact apply_of_applies happlies
  | false => rw [apply_of_not_applies happlies, expand_of_not_applies hv happlies]

/-! ## The fields of an expanded value -/

/-- What becomes of the value of a field before it is put in its place. -/
def inward : Expansion → Value → Value
  | shallow, v => v
  | deep, v => expandDeep v

theorem inward_of_not_isObject (mode : Expansion) {v : Value} (h : v.isObject = false) : mode.inward v = v := by
  cases mode with
  | shallow => rfl
  | deep => exact expandDeep_of_not_isObject h

theorem fields_expand (mode : Expansion) (v : Value) :
    (mode.expand v).fields = placeAll mode (Entries.mapValues mode.inward v.fields) := by
  cases v with
  | object tag fields =>
    cases mode with
    | shallow =>
      have hsame : Entries.mapValues (inward .shallow) fields = fields := List.map_id fields
      rw [Value.fields, hsame]
      rfl
    | deep =>
      rw [expand, expandDeep, expandDeepFields_eq]
      rfl
  | _ => cases mode <;> rfl

/-- A field of an expanded value depends on the entry of its name and on those whose keys go on behind the name. -/
theorem field?_apply_congr {mode : Expansion} {v w : Value} (hv : v.Ordered) (hw : w.Ordered) {name : String}
    (h : ∀ key, key = name ∨ Behind name key → v.field? key = w.field? key) :
    (apply (some mode) v).field? name = (apply (some mode) w).field? name := by
  rw [apply_eq_expand mode hv, apply_eq_expand mode hw, Value.field?, Value.field?, fields_expand, fields_expand]
  refine find?_placeAll_congr ?_ ?_ fun key hkey => ?_
  · exact Entries.sorted_mapValues mode.inward hv.sorted_fields
  · exact Entries.sorted_mapValues mode.inward hw.sorted_fields
  · have hfield : Entries.find? key v.fields = Entries.find? key w.fields := h key (eq_or_behind_of_keyPath hkey)
    rw [Entries.find?_mapValues, Entries.find?_mapValues, hfield]

end Expansion

end Conform

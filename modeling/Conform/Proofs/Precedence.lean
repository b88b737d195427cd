import Conform.Proofs.NormalForm
/- Which entry is found where several come to lie at one place. A value that is put at the end of a route is found there
   (`descend?_mergeField_nest`). It stays as long as nothing is put on the way to it or behind it, and something stays there
   as long as nothing is put on the way (`descend?_mergeField_of_apart`). Entries come in the order of their keys, and what is
   on the way to a key sorts before it (`lt_of_behind`): all that could take its place was there before and has given way. So
   of a cut entry that is no object the value is found where its key says, whatever else the object holds
   (`expanded_entry_wins`). -/
namespace Conform

namespace Text

theorem splitOnceChars_append {sep : Char} {head : List Char} (h : sep ∉ head) (rest : List Char) :
    splitOnceChars sep (head ++ sep :: rest) = some (head, rest) := by
  induction head with
  | nil => simp [splitOnceChars]
  | cons c cs ih =>
    rw [List.mem_cons, not_or] at h
    rw [List.cons_append, splitOnceChars, if_neg (Ne.symm h.1), ih h.2]
    rfl

end Text

namespace Expansion

/-! ## Dotted keys -/

/-- A key is dotted if there is text on both sides of its first dot. -/
theorem isDotted_iff {key : String} :
    isDotted key = true ↔
      ∃ head rest, key = head ++ "." ++ rest ∧ '.' ∉ head.toList ∧ head ≠ "" ∧ rest ≠ "" := by
  rw [isDotted]
  constructor
  · intro h
    cases hsplit : Text.splitOnce '.' key with
    | none => simp [hsplit] at h
    | some parts =>
      obtain ⟨head, rest⟩ := parts
      obtain ⟨⟨front, back⟩, hchars, hparts⟩ := Option.map_eq_some_iff.1 hsplit
      cases hparts
      have hfront : '.' ∉ (String.ofList front).toList := by
        rw [String.toList_ofList]
        exact Text.notMem_of_splitOnceChars hchars
      exact ⟨_, _, Text.eq_of_splitOnce_dot hsplit, hfront, by simpa [hsplit] using h⟩
  · rintro ⟨head, rest, rfl, hhead, hne, hrest⟩
    have hchars : (head ++ "." ++ rest).toList = head.toList ++ '.' :: rest.toList := by simp
    simp [Text.splitOnce, hchars, Text.splitOnceChars_append hhead, hne, hrest]

theorem route_shallow {head rest : String} (hhead : '.' ∉ head.toList) (hne : head ≠ "") (hrest : rest ≠ "") :
    route .shallow (head ++ "." ++ rest) = [head, rest] := by
  have hdotted : isDotted (head ++ "." ++ rest) = true := isDotted_iff.2 ⟨head, rest, rfl, hhead, hne, hrest⟩
  have hchars : (head ++ "." ++ rest).toList = head.toList ++ '.' :: rest.toList := by simp
  rw [route, keyPath, hdotted]
  simp [Text.splitOnce, hchars, Text.splitOnceChars_append hhead]

/-- Keys are cut once, so that nothing is stored behind where a cut key leads. -/
theorem eq_of_route_shallow {key other : String} (hdotted : isDotted key = true)
    (h : route .shallow key <+: route .shallow other) : other = key := by
  obtain ⟨head, rest, hkey, hhead, hne, hrest⟩ := isDotted_iff.1 hdotted
  have hroute : route .shallow key = [head, rest] := hkey ▸ route_shallow hhead hne hrest
  have hother : (route .shallow other).length ≤ 2 := by
    cases hcut : isDotted other with
    | false => simp [route_of_not_isDotted .shallow hcut]
    | true =>
      obtain ⟨head', rest', rfl, hhead', hne', hrest'⟩ := isDotted_iff.1 hcut
      simp [route_shallow hhead' hne' hrest']
  have heq := h.eq_of_length_le (by rwa [hroute])
  rw [← intercalate_route .shallow other, ← heq, intercalate_route]

theorem lt_of_behind {name key : String} (h : Behind name key) : name < key := by
  obtain ⟨rest, rfl⟩ := h
  rw [String.lt_iff, String.append_assoc, String.toList_append]
  have hrest : [] < ("." ++ rest).toList := by simp
  have hlt : name.toList ++ [] < name.toList ++ ("." ++ rest).toList := List.append_left_lt hrest
  rwa [List.append_nil] at hlt

/-! ## One entry -/

theorem meet_nest_cons (present : Option Value) (key : String) (keys : List String) (v : Value) :
    ∃ tag, meet present (nest (key :: keys) v) =
      .object tag (mergeField key ((present.map Value.fields).getD []) (nest keys v)) := by
  have hempty : nest (key :: keys) v = .object none (mergeField key [] (nest keys v)) := by
    rw [mergeField_eq_insert]
    show Value.object none [(key, nest keys v)] = .object none [(key, meet none (nest keys v))]
    rw [meet_none]
  rcases present with _ | w
  · exact ⟨none, (meet_none _).trans hempty⟩
  · cases w with
    | object kept existing => exact ⟨kept, rfl⟩
    | _ => exact ⟨none, hempty⟩

theorem descend?_object (tag : Option String) (v : Value) (key : String) (keys : List String) :
    (Value.object tag v.fields).descend? (key :: keys) = v.descend? (key :: keys) := rfl

theorem descend?_insert_self (tag : Option String) (key : String) (v : Value) (fields : List (String × Value))
    (keys : List String) : (Value.object tag (Entries.insert key v fields)).descend? (key :: keys) = v.descend? keys := by
  rw [Value.descend?_cons, Value.field?, Value.fields, Entries.find?_insert_self, Option.bind_some]

theorem descend?_insert_of_ne {key other : String} (h : other ≠ key) (tag tag' : Option String) (v : Value)
    (fields : List (String × Value)) (keys : List String) :
    (Value.object tag (Entries.insert key v fields)).descend? (other :: keys) =
      (Value.object tag' fields).descend? (other :: keys) := by
  rw [Value.descend?_cons, Value.descend?_cons, Value.field?, Value.field?, Value.fields, Value.fields,
    Entries.find?_insert_of_ne h]

/-- Whatever was there, a value is found where it was put; an object may have been merged into another one. -/
theorem descend?_mergeField_nest (tag : Option String) (key : String) (keys : List String)
    (fields : List (String × Value)) (v : Value) :
    ∃ x, (Value.object tag (mergeField key fields (nest keys v))).descend? (key :: keys) = some x ∧
      (v.isObject = false → x = v) := by
  induction keys generalizing tag key fields with
  | nil =>
    rw [mergeField_eq_insert, descend?_insert_self]
    refine ⟨_, rfl, fun hobject => ?_⟩
    cases v with
    | object tag fields => cases hobject
    | _ => rfl
  | cons k keys ih =>
    obtain ⟨tag', hmeet⟩ := meet_nest_cons (Entries.find? key fields) k keys v
    rw [mergeField_eq_insert, hmeet, descend?_insert_self]
    exact ih tag' k _

/-- What is found at the end of keys is not lost by a value that is put elsewhere than on the way to it. It stays the same
    if the value is not put behind it either. -/
theorem descend?_mergeField_of_apart {tag : Option String} (tag' : Option String) {key key' : String} {keys keys' : List String}
    {fields : List (String × Value)} {x : Value} (hway : ¬key' :: keys' <+: key :: keys)
    (h : (Value.object tag fields).descend? (key :: keys) = some x) (v : Value) :
    ∃ y, (Value.object tag' (mergeField key' fields (nest keys' v))).descend? (key :: keys) = some y ∧
      (¬key :: keys <+: key' :: keys' → y = x) := by
  -- the routes are followed side by side until they part
  induction keys' generalizing tag tag' key key' keys fields with
  | nil =>
    have hne : key ≠ key' := by
      rintro rfl
      exact hway ⟨keys, rfl⟩
    rw [mergeField_eq_insert, descend?_insert_of_ne hne tag' tag]
    exact ⟨x, h, fun _ => rfl⟩
  | cons k' keys' ih =>
    rw [mergeField_eq_insert]
    by_cases hkey : key = key'
    · subst hkey
      obtain ⟨tag'', hmeet⟩ := meet_nest_cons (Entries.find? key fields) k' keys' v
      rw [hmeet, descend?_insert_self]
      cases keys with
      | nil => exact ⟨_, rfl, fun hbehind => absurd ⟨k' :: keys', rfl⟩ hbehind⟩
      | cons k keys =>
        rw [List.cons_prefix_cons, not_and] at hway
        obtain ⟨w, hw, hx⟩ := Option.bind_eq_some_iff.1 h
        have hfind : Entries.find? key fields = some w := hw
        rw [hfind, List.cons_prefix_cons]
        obtain ⟨y, hy, hsame⟩ := ih tag'' (hway rfl) ((descend?_object none w k keys).trans hx)
        exact ⟨y, hy, fun hbehind => hsame fun hprefix => hbehind ⟨rfl, hprefix⟩⟩
    · rw [descend?_insert_of_ne hkey tag' tag]
      exact ⟨x, h, fun _ => rfl⟩

/-! ## All entries -/

theorem descend?_foldl_place {mode : Expansion} {tag : Option String} {key : String} {entries : List (String × Value)}
    (hway : ∀ entry ∈ entries, ¬mode.route entry.1 <+: mode.route key) {fields : List (String × Value)} {x : Value}
    (h : (Value.object tag fields).descend? (mode.route key) = some x) :
    ∃ y, (Value.object tag (entries.foldl mode.place fields)).descend? (mode.route key) = some y ∧
      ((∀ entry ∈ entries, ¬mode.route key <+: mode.route entry.1) → y = x) := by
  induction entries generalizing fields x with
  | nil => exact ⟨x, h, fun _ => rfl⟩
  | cons entry rest ih =>
    obtain ⟨hentry, hrest⟩ := List.forall_mem_cons.1 hway
    obtain ⟨y, hy, hsame⟩ := descend?_mergeField_of_apart tag hentry h entry.2
    obtain ⟨z, hz, hlater⟩ := ih hrest hy
    refine ⟨z, hz, fun hbehind => ?_⟩
    obtain ⟨hfirst, hothers⟩ := List.forall_mem_cons.1 hbehind
    rw [hlater hothers, hsame hfirst]

/-- At the end of the route of each entry there is something, and it is the value of the entry, unless this is an object or
    other entries are stored further inside. -/
theorem descend?_placeAll (mode : Expansion) (tag : Option String) {entries : List (String × Value)}
    (hsorted : Entries.Sorted entries) {key : String} {v : Value} (hmem : (key, v) ∈ entries) :
    ∃ x, (Value.object tag (placeAll mode entries)).descend? (mode.route key) = some x ∧
      (v.isObject = false → (∀ entry ∈ entries, mode.route key <+: mode.route entry.1 → entry.1 = key) → x = v) := by
  obtain ⟨before, behind, rfl⟩ := List.append_of_mem hmem
  have hlater : ∀ entry ∈ behind, key < entry.1 :=
    (List.pairwise_cons.1 (List.pairwise_append.1 hsorted).2.1).1
  -- what is on the way to the key was stored before, as its key is shorter
  have hway : ∀ entry ∈ behind, ¬mode.route entry.1 <+: mode.route key := by
    intro entry hentry hprefix
    rcases eq_or_behind_of_route hprefix with heq | hbehind
    · exact String.ne_of_lt (hlater entry hentry) heq
    · exact String.lt_asymm (lt_of_behind hbehind) (hlater entry hentry)
  obtain ⟨x, hx, harrives⟩ := descend?_mergeField_nest tag (mode.keyPath key).1 (mode.keyPath key).2
    (before.foldl mode.place []) v
  obtain ⟨y, hy, hstays⟩ := descend?_foldl_place hway hx
  rw [placeAll, List.foldl_append, List.foldl_cons, place_eq]
  refine ⟨y, hy, fun hobject hfree => ?_⟩
  rw [hstays fun entry hentry hprefix => ?_, harrives hobject]
  have heq := hfree entry (List.mem_append_right _ (List.mem_cons_of_mem _ hentry)) hprefix
  exact String.ne_of_lt (hlater entry hentry) heq.symm

/-! ## Expanded values -/

theorem descend?_apply (mode : Expansion) (tag : Option String) {fields : List (String × Value)}
    (hsorted : Entries.Sorted fields) {key : String} {v : Value} (hmem : (key, v) ∈ fields)
    (hdotted : isDotted key = true) :
    ∃ x, (apply (some mode) (.object tag fields)).descend? (mode.route key) = some x ∧
      (v.isObject = false → (∀ entry ∈ fields, mode.route key <+: mode.route entry.1 → entry.1 = key) → x = v) := by
  have happlies : mode.applies (.object tag fields) = true :=
    applies_iff.2 ⟨_, looksAt_self mode _, _, hmem, hdotted⟩
  have hinward : (key, mode.inward v) ∈ Entries.mapValues mode.inward fields := List.mem_map_of_mem hmem
  obtain ⟨x, hx, hsame⟩ := descend?_placeAll mode tag (Entries.sorted_mapValues mode.inward hsorted) hinward
  refine ⟨x, ?_, fun hobject hfree => ?_⟩
  · rw [apply_of_applies happlies, route, ← descend?_object tag, fields_expand]
    exact hx
  · rw [inward_of_not_isObject mode hobject] at hsame
    exact hsame hobject (List.forall_mem_map.2 hfree)

/-- The value of a dotted entry, if it is no object, is found where the key says, whatever else the object holds: at the
    field named by the rest of the key, in the object that stands at its head, if keys are cut once; at the end of all
    parts of the key, if they are cut at every dot and no other key goes on behind this one. -/
theorem expanded_entry_wins (tag : Option String) {fields : List (String × Value)} (hsorted : Entries.Sorted fields)
    {key : String} {v : Value} (hmem : (key, v) ∈ fields) (hobject : v.isObject = false)
    (hdotted : isDotted key = true) :
    (∃ head rest, key = head ++ "." ++ rest ∧ '.' ∉ head.toList ∧
      ∃ tag' inner, (apply (some .shallow) (.object tag fields)).field? head = some (.object tag' inner) ∧
        Entries.find? rest inner = some v) ∧
    ((∀ entry ∈ fields, ¬Behind key entry.1) →
      (apply (some .deep) (.object tag fields)).descend? (Text.split '.' key) = some v) := by
  constructor
  · obtain ⟨head, rest, hkey, hhead, hne, hrest⟩ := isDotted_iff.1 hdotted
    have hroute : route .shallow key = [head, rest] := hkey ▸ route_shallow hhead hne hrest
    obtain ⟨x, hx, hsame⟩ := descend?_apply .shallow tag hsorted hmem hdotted
    rw [hroute, hsame hobject fun entry _ => eq_of_route_shallow hdotted] at hx
    exact ⟨head, rest, hkey, hhead, Value.exists_object_of_descend? hx⟩
  · intro hbehind
    obtain ⟨x, hx, hsame⟩ := descend?_apply .deep tag hsorted hmem hdotted
    rw [route_deep hdotted] at hx
    rw [hx, hsame hobject fun entry hentry hprefix => ?_]
    exact (eq_or_behind_of_route hprefix).resolve_right (hbehind entry hentry)

/-- On the way to the key there are an object of a class, with a field and a dotted key of its own, and another object. Other
    keys sort between them and behind the key, without a dot where it would go on. -/
theorem expanded_entry_wins_layered :
    let fields : List (String × Value) :=
      [("a", .object (some "T") [("b", .bool false), ("b.c", .bool true)]), ("a-x", .undefined),
        ("a.b", .object none [("c", .bool true)]), ("a.b.c", .null), ("a.b/c", .undefined), ("a.bc", .bool false)]
    (Entries.Sorted fields ∧ ∀ entry ∈ fields, ¬Behind "a.b.c" entry.1) ∧
    (∃ head rest, "a.b.c" = head ++ "." ++ rest ∧ '.' ∉ head.toList ∧
      ∃ tag inner, (apply (some .shallow) (.object none fields)).field? head = some (.object tag inner) ∧
        Entries.find? rest inner = some .null) ∧
    (apply (some .deep) (.object none fields)).descend? ["a", "b", "c"] = some .null := by
  intro fields
  have hsorted : Entries.Sorted fields := by
    unfold Entries.Sorted
    decide
  have hbehind : ∀ entry ∈ fields, ¬Behind "a.b.c" entry.1 := by
    rintro entry hentry ⟨rest, hkey⟩
    have hchars := congrArg String.toList hkey
    simp only [fields, List.mem_cons, List.not_mem_nil, or_false] at hentry
    rcases hentry with rfl | rfl | rfl | rfl | rfl | rfl <;> simp at hchars
  have hmem : ("a.b.c", Value.null) ∈ fields := by simp [fields]
  obtain ⟨honce, hall⟩ := expanded_entry_wins none hsorted hmem rfl (by decide)
  exact ⟨⟨hsorted, hbehind⟩, honce, hall hbehind⟩

end Expansion

end Conform

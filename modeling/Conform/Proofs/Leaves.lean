import Mathlib.Data.List.Perm.Basic
import Conform.Proofs.Placement
/- The leaves of values. A leaf is what stands at the end of a path of keys: a value that is no object, or an object
   without fields. Deep expansion moves leaves and does nothing else to them: where no path of a leaf leads to another
   leaf or past it, the expanded value has the leaves of the value, each once, at the paths that the cut keys spell out
   (`leaves_apply_deep`). The argument is one for merging: a value that is merged into fields brings in its leaves, and
   nothing gives way to them, as whatever stood in the way would have leaves on the same path (`bringsLeaves`). -/
namespace Conform

namespace Value

/-! ## Leaves and their paths -/

/-- Leaves with their paths put behind others. -/
def under (keys : List String) (leaves : List (List String × Value)) : List (List String × Value) :=
  leaves.map fun leaf => (keys ++ leaf.1, leaf.2)

mutual

/-- The leaves of a value with the paths that lead to them, where a key stands for the keys that `cut` makes of it. -/
def leavesBy (cut : String → List String) : Value → List (List String × Value)
  | .object tag fields => if fields.isEmpty then [([], .object tag fields)] else leavesByFields cut fields
  | v => [([], v)]

def leavesByFields (cut : String → List String) : List (String × Value) → List (List String × Value)
  | [] => []
  | (key, v) :: rest => under (cut key) (leavesBy cut v) ++ leavesByFields cut rest

end

/-- The leaves of a value, where every key stands for itself. -/
def leaves : Value → List (List String × Value) :=
  leavesBy fun key => [key]

def fieldLeaves : List (String × Value) → List (List String × Value) :=
  leavesByFields fun key => [key]

/-- The keys that a key stands for: those between the dots of a dotted key, else the key itself. -/
def segments (key : String) : List String :=
  if Expansion.isDotted key then Text.split '.' key else [key]

/-- The leaves of a value, where every key stands for its segments. -/
def flat : Value → List (List String × Value) :=
  leavesBy segments

/-- No path of a leaf is that of another leaf, nor does one begin with another. -/
def PrefixFree (leaves : List (List String × Value)) : Prop :=
  leaves.Pairwise fun a b => ¬a.1 <+: b.1 ∧ ¬b.1 <+: a.1

instance (leaves : List (List String × Value)) : Decidable (PrefixFree leaves) :=
  inferInstanceAs (Decidable (leaves.Pairwise fun a b => ¬a.1 <+: b.1 ∧ ¬b.1 <+: a.1))

section
variable {keys : List String} {l l' : List (List String × Value)}

theorem under_nil (l : List (List String × Value)) : under [] l = l :=
  List.map_id l

theorem under_append (keys keys' : List String) (l : List (List String × Value)) :
    under (keys ++ keys') l = under keys (under keys' l) := by
  simp [under, List.append_assoc]

theorem under_perm (keys : List String) (h : l.Perm l') : (under keys l).Perm (under keys l') :=
  h.map _

theorem PrefixFree.perm (h : PrefixFree l) (hperm : l.Perm l') : PrefixFree l' :=
  (hperm.pairwise_iff And.symm).1 h

theorem prefixFree_under : PrefixFree (under keys l) ↔ PrefixFree l := by
  simp only [PrefixFree, under, List.pairwise_map, List.prefix_append_right_inj]

theorem PrefixFree.not_prefix_of_append (h : PrefixFree (l ++ l')) {a b : List String × Value} (ha : a ∈ l)
    (hb : b ∈ l') : ¬a.1 <+: b.1 ∧ ¬b.1 <+: a.1 :=
  (List.pairwise_append.1 h).2.2 a ha b hb

end

section
variable (cut : String → List String)

theorem leavesByFields_eq (fields : List (String × Value)) :
    leavesByFields cut fields = fields.flatMap fun entry => under (cut entry.1) (leavesBy cut entry.2) := by
  induction fields with
  | nil => rfl
  | cons entry rest ih =>
    rw [leavesByFields, ih]
    rfl

theorem leavesBy_of_not_isObject {v : Value} (h : v.isObject = false) : leavesBy cut v = [([], v)] := by
  cases v with
  | object tag fields => cases h
  | _ => rfl

theorem leavesBy_object {fields : List (String × Value)} (h : fields ≠ []) (tag : Option String) :
    leavesBy cut (.object tag fields) = leavesByFields cut fields := by
  rw [leavesBy, List.isEmpty_eq_false_iff.2 h, if_neg Bool.false_ne_true]

theorem leavesBy_ne_nil (v : Value) : leavesBy cut v ≠ [] := by
  induction v using inductionOnFields with
  | other v hobject =>
    rw [leavesBy_of_not_isObject cut hobject]
    exact List.cons_ne_nil _ _
  | object tag fields ih =>
    cases fields with
    | nil => exact List.cons_ne_nil _ _
    | cons entry rest =>
      rw [leavesBy_object cut (List.cons_ne_nil _ _), leavesByFields, ne_eq, List.append_eq_nil_iff, under,
        List.map_eq_nil_iff]
      exact fun h => ih entry List.mem_cons_self h.1

end

theorem leaves_ne_nil (v : Value) : v.leaves ≠ [] :=
  leavesBy_ne_nil _ v

/-- A value that is no object is a leaf, and so is an object without fields. -/
theorem leaves_eq_singleton_or (v : Value) :
    v.leaves = [([], v)] ∨ ∃ tag fields, v = .object tag fields ∧ fields ≠ [] ∧ v.leaves = fieldLeaves fields := by
  cases hobject : v.isObject with
  | false => exact .inl (leavesBy_of_not_isObject _ hobject)
  | true =>
    cases v with
    | object tag fields =>
      by_cases hnil : fields = []
      · subst hnil
        exact .inl rfl
      · exact .inr ⟨tag, fields, rfl, hnil, leavesBy_object _ hnil tag⟩
    | _ => cases hobject

theorem fieldLeaves_cons (key : String) (v : Value) (rest : List (String × Value)) :
    fieldLeaves ((key, v) :: rest) = under [key] v.leaves ++ fieldLeaves rest := rfl

theorem fieldLeaves_perm {fields fields' : List (String × Value)} (h : fields.Perm fields') :
    (fieldLeaves fields).Perm (fieldLeaves fields') := by
  simp only [fieldLeaves, leavesByFields_eq]
  exact h.flatMap_right _

/-! ## Values with sorted fields -/

/-- The fields of the value, and of the objects that are reached from it through fields, are sorted. -/
inductive Arranged : Value → Prop where
  | object {tag : Option String} {fields : List (String × Value)} (hsorted : Entries.Sorted fields)
    (h : ∀ entry ∈ fields, Arranged entry.2) : Arranged (.object tag fields)
  | other {v : Value} (h : v.isObject = false) : Arranged v

def ArrangedFields (fields : List (String × Value)) : Prop :=
  Entries.Sorted fields ∧ ∀ entry ∈ fields, Arranged entry.2

theorem arranged_object_iff (tag : Option String) (fields : List (String × Value)) :
    Arranged (.object tag fields) ↔ ArrangedFields fields := by
  constructor
  · intro h
    cases h with
    | object hsorted h => exact ⟨hsorted, h⟩
    | other h => cases h
  · exact fun h => .object h.1 h.2

theorem composable_arranged : Expansion.Composable (fun _ => True) Arranged ArrangedFields where
  object := arranged_object_iff
  nil := ⟨Entries.sorted_nil, fun _ h => nomatch h⟩
  mem h entry hentry := ⟨trivial, h.2 entry hentry⟩
  insert _ hfields hv := by
    refine ⟨Entries.sorted_insert hfields.1 _ _, fun entry hentry => ?_⟩
    rcases Entries.mem_of_mem_insert hentry with rfl | hentry
    · exact hv
    · exact hfields.2 entry hentry

end Value

namespace Expansion
open Value

theorem arranged_expandDeep (v : Value) : (expandDeep v).Arranged :=
  composable_arranged.expandDeep (fun _ => .other) fun _ _ _ _ => ⟨trivial, fun _ _ => trivial⟩

/-! ## Merging brings in leaves and drops none -/

/-- Where the paths stay apart, fields into which the value is merged have their leaves and those of the value. -/
def BringsLeaves (v : Value) : Prop :=
  ∀ {key : String} {fields : List (String × Value)}, ArrangedFields fields →
    PrefixFree (fieldLeaves fields ++ under [key] v.leaves) →
    (fieldLeaves (mergeField key fields v)).Perm (fieldLeaves fields ++ under [key] v.leaves)

theorem under_leaves_subset {key : String} {v : Value} {fields : List (String × Value)}
    (h : Entries.find? key fields = some v) : under [key] v.leaves ⊆ fieldLeaves fields := by
  intro leaf hleaf
  rw [fieldLeaves, leavesByFields_eq]
  exact List.mem_flatMap.2 ⟨(key, v), Entries.mem_of_find? h, hleaf⟩

theorem leaves_apart {key : String} {fields : List (String × Value)} {w : Value}
    {leaves : List (List String × Value)} (h : PrefixFree (fieldLeaves fields ++ under [key] leaves))
    (hfind : Entries.find? key fields = some w) {a b : List String × Value} (ha : a ∈ w.leaves) (hb : b ∈ leaves) :
    ¬a.1 <+: b.1 ∧ ¬b.1 <+: a.1 := by
  have hpresent : ([key] ++ a.1, a.2) ∈ fieldLeaves fields := under_leaves_subset hfind (List.mem_map.2 ⟨a, ha, rfl⟩)
  have hapart := h.not_prefix_of_append hpresent (List.mem_map.2 ⟨b, hb, rfl⟩)
  rwa [List.prefix_append_right_inj, List.prefix_append_right_inj] at hapart

/-- A leaf can only be put where nothing is, as nothing else is on its path. -/
theorem find?_eq_none_of_prefixFree {key : String} {fields : List (String × Value)} {x : Value}
    {leaves : List (List String × Value)} (h : PrefixFree (fieldLeaves fields ++ under [key] leaves))
    (hx : ([], x) ∈ leaves) : Entries.find? key fields = none := by
  cases hfind : Entries.find? key fields with
  | none => rfl
  | some w =>
    obtain ⟨leaf, hleaf⟩ := List.exists_mem_of_ne_nil _ (leaves_ne_nil w)
    exact absurd List.nil_prefix (leaves_apart h hfind hleaf hx).2

/-- Leaves can only be put under a key where a leaf is not, as nothing goes on from it. -/
theorem isObject_of_prefixFree {key : String} {fields : List (String × Value)} {w : Value}
    {leaves : List (List String × Value)} (h : PrefixFree (fieldLeaves fields ++ under [key] leaves))
    (hfind : Entries.find? key fields = some w) (hleaves : leaves ≠ []) :
    ∃ kept existing, w = .object kept existing ∧ existing ≠ [] := by
  rcases leaves_eq_singleton_or w with hw | ⟨kept, existing, hw, hexisting, -⟩
  · obtain ⟨leaf, hleaf⟩ := List.exists_mem_of_ne_nil _ hleaves
    exact absurd List.nil_prefix (leaves_apart h hfind (hw ▸ List.mem_singleton_self _) hleaf).1
  · exact ⟨kept, existing, hw, hexisting⟩

theorem fieldLeaves_insert_of_none {key : String} {fields : List (String × Value)}
    (h : Entries.find? key fields = none) (v : Value) :
    (fieldLeaves (Entries.insert key v fields)).Perm (fieldLeaves fields ++ under [key] v.leaves) :=
  (fieldLeaves_perm (Entries.insert_perm_of_find?_eq_none h v)).trans List.perm_append_comm

/-- The fields of an object come in one after the other, each into fields that have grown by the leaves of those before. -/
theorem fieldLeaves_mergeFields {incoming : List (String × Value)} (ih : ∀ entry ∈ incoming, BringsLeaves entry.2)
    (hincoming : ArrangedFields incoming) {existing : List (String × Value)} (hexisting : ArrangedFields existing)
    (h : PrefixFree (fieldLeaves existing ++ fieldLeaves incoming)) :
    (fieldLeaves (mergeFields existing incoming)).Perm (fieldLeaves existing ++ fieldLeaves incoming) := by
  induction incoming generalizing existing with
  | nil =>
    rw [mergeFields, fieldLeaves, leavesByFields, List.append_nil]
  | cons entry rest ihrest =>
    obtain ⟨key, v⟩ := entry
    obtain ⟨ihentry, ih⟩ := List.forall_mem_cons.1 ih
    obtain ⟨hentry, hrest⟩ := List.forall_mem_cons.1 hincoming.2
    rw [fieldLeaves_cons, ← List.append_assoc] at h ⊢
    have hgrown := ihentry hexisting (List.pairwise_append.1 h).1
    have hmerged : ArrangedFields (mergeField key existing v) :=
      composable_arranged.mergeField hentry trivial hexisting
    rw [mergeFields]
    exact (ihrest ih ⟨hincoming.1.of_cons, hrest⟩ hmerged (h.perm (hgrown.symm.append_right _))).trans
      (hgrown.append_right _)

/-- Two objects with fields meet at a key: the leaves of both are there then. -/
theorem fieldLeaves_mergeField_of_some {key : String} {fields existing incoming : List (String × Value)}
    {kept tag : Option String} (hfields : ArrangedFields fields) (hexisting : existing ≠ [])
    (hfind : Entries.find? key fields = some (.object kept existing))
    (hmerged : PrefixFree (fieldLeaves existing ++ fieldLeaves incoming) →
      (fieldLeaves (mergeFields existing incoming)).Perm (fieldLeaves existing ++ fieldLeaves incoming))
    (h : PrefixFree (fieldLeaves fields ++ under [key] (fieldLeaves incoming))) :
    (fieldLeaves (mergeField key fields (.object tag incoming))).Perm
      (fieldLeaves fields ++ under [key] (fieldLeaves incoming)) := by
  have hleaves : ∀ {l}, l ≠ [] → leaves (.object kept l) = fieldLeaves l := fun hl => leavesBy_object _ hl kept
  obtain ⟨rest, hperm, hinsert⟩ := Entries.exists_perm_of_find?_eq_some hfields.1 hfind
  have hsplit : (fieldLeaves fields).Perm (under [key] (fieldLeaves existing) ++ fieldLeaves rest) := by
    have hcons := fieldLeaves_perm hperm
    rwa [fieldLeaves_cons, hleaves hexisting] at hcons
  -- what is under the key is apart from the rest, so that it can be looked at alone
  have htogether : (under [key] (fieldLeaves existing) ++ fieldLeaves rest ++ under [key] (fieldLeaves incoming)).Perm
      (under [key] (fieldLeaves existing ++ fieldLeaves incoming) ++ fieldLeaves rest) := by
    rw [under, under, under, List.map_append, List.append_assoc, List.append_assoc]
    exact List.perm_append_comm.append_left _
  have hunder := h.perm ((hsplit.append_right _).trans htogether)
  have hmerged := hmerged (prefixFree_under.1 (List.pairwise_append.1 hunder).1)
  have hcons := fieldLeaves_perm (hinsert (.object kept (mergeFields existing incoming)))
  rw [fieldLeaves_cons, hleaves (mergeFields_ne_nil hexisting incoming)] at hcons
  rw [mergeField_object_of_some tag incoming hfind]
  calc (fieldLeaves (Entries.insert key (.object kept (mergeFields existing incoming)) fields)).Perm
        (under [key] (fieldLeaves (mergeFields existing incoming)) ++ fieldLeaves rest) := hcons
    List.Perm _ (under [key] (fieldLeaves existing ++ fieldLeaves incoming) ++ fieldLeaves rest) :=
        (under_perm _ hmerged).append_right _
    List.Perm _ (fieldLeaves fields ++ under [key] (fieldLeaves incoming)) :=
        ((hsplit.append_right _).trans htogether).symm

theorem bringsLeaves {v : Value} (hv : v.Arranged) : BringsLeaves v := by
  induction v using Value.inductionOnFields with
  | other v hobject =>
    intro key fields hfields h
    have hleaf : ([], v) ∈ v.leaves := by
      rw [leaves, leavesBy_of_not_isObject _ hobject]
      exact List.mem_singleton_self _
    rw [mergeField_of_not_isObject _ _ hobject]
    exact fieldLeaves_insert_of_none (find?_eq_none_of_prefixFree h hleaf) v
  | object tag incoming ih =>
    intro key fields hfields h
    have hincoming := (arranged_object_iff tag incoming).1 hv
    cases hfind : Entries.find? key fields with
    | none =>
      rw [mergeField_object_of_ne tag incoming fun kept existing => by rw [hfind]; exact nofun]
      exact fieldLeaves_insert_of_none hfind _
    | some w =>
      obtain ⟨kept, existing, rfl, hexisting⟩ := isObject_of_prefixFree h hfind (leaves_ne_nil _)
      rcases leaves_eq_singleton_or (.object tag incoming) with hv | ⟨_, _, ⟨⟩, -, hv⟩
      · have hnone := find?_eq_none_of_prefixFree h (hv ▸ List.mem_singleton_self _)
        rw [hfind] at hnone
        cases hnone
      · rw [hv] at h ⊢
        have hpresent := (arranged_object_iff kept existing).1 (hfields.2 _ (Entries.mem_of_find? hfind))
        refine fieldLeaves_mergeField_of_some hfields hexisting hfind (fun hfree => ?_) h
        exact fieldLeaves_mergeFields (fun entry hentry => ih entry hentry (hincoming.2 entry hentry)) hincoming
          hpresent hfree

/-! ## Expansion moves leaves -/

theorem leaves_nest (keys : List String) (v : Value) : (nest keys v).leaves = under keys v.leaves := by
  induction keys with
  | nil => exact (under_nil _).symm
  | cons key rest ih =>
    have hone : (nest (key :: rest) v).leaves = under [key] (nest rest v).leaves :=
      List.append_nil _
    rw [hone, ih, ← under_append]
    rfl

theorem route_deep_eq (key : String) : route .deep key = segments key := by
  rw [segments]
  split
  · next h => exact route_deep h
  · next h => exact route_of_not_isDotted .deep (Bool.not_eq_true _ ▸ h)

theorem fieldLeaves_place {entry : String × Value} (hentry : entry.2.Arranged) {fields : List (String × Value)}
    (hfields : ArrangedFields fields)
    (h : PrefixFree (fieldLeaves fields ++ under (segments entry.1) entry.2.leaves)) :
    (fieldLeaves (place .deep fields entry)).Perm
      (fieldLeaves fields ++ under (segments entry.1) entry.2.leaves) := by
  have hmoved : under (segments entry.1) entry.2.leaves =
      under [(keyPath .deep entry.1).1] (nest (keyPath .deep entry.1).2 entry.2).leaves := by
    rw [leaves_nest, ← under_append, ← route_deep_eq]
    rfl
  rw [hmoved] at h ⊢
  exact bringsLeaves (composable_arranged.nest (fun _ _ => trivial) hentry) hfields h

theorem fieldLeaves_foldl_place {entries : List (String × Value)} (hentries : ∀ entry ∈ entries, entry.2.Arranged)
    {fields : List (String × Value)} (hfields : ArrangedFields fields)
    (h : PrefixFree (fieldLeaves fields ++ entries.flatMap fun entry => under (segments entry.1) entry.2.leaves)) :
    (fieldLeaves (entries.foldl (place .deep) fields)).Perm
      (fieldLeaves fields ++ entries.flatMap fun entry => under (segments entry.1) entry.2.leaves) := by
  induction entries generalizing fields with
  | nil => rw [List.foldl_nil, List.flatMap_nil, List.append_nil]
  | cons entry rest ih =>
    obtain ⟨hentry, hrest⟩ := List.forall_mem_cons.1 hentries
    rw [List.flatMap_cons, ← List.append_assoc] at h ⊢
    have hgrown := fieldLeaves_place hentry hfields (List.pairwise_append.1 h).1
    have hplaced : ArrangedFields (place .deep fields entry) :=
      composable_arranged.mergeField (composable_arranged.nest (fun _ _ => trivial) hentry) trivial hfields
    exact (ih hrest hplaced (h.perm (hgrown.symm.append_right _))).trans (hgrown.append_right _)

theorem leaves_expandDeep {v : Value} (h : PrefixFree v.flat) : (expandDeep v).leaves.Perm v.flat := by
  induction v using Value.inductionOnFields with
  | other v hobject =>
    rw [expandDeep_of_not_isObject hobject, leaves, flat, leavesBy_of_not_isObject _ hobject,
      leavesBy_of_not_isObject _ hobject]
  | object tag fields ih =>
    by_cases hnil : fields = []
    · subst hnil
      rfl
    have hflat : flat (.object tag fields) = fields.flatMap fun entry => under (segments entry.1) entry.2.flat := by
      rw [flat, leavesBy_object _ hnil, leavesByFields_eq]
    have hplaced : placeAll .deep (Entries.mapValues expandDeep fields) ≠ [] := by
      rw [ne_eq, placeAll_eq_nil_iff, Entries.mapValues, List.map_eq_nil_iff]
      exact hnil
    rw [hflat] at h ⊢
    -- the values of the fields are expanded first, by the hypothesis, and then moved as they are
    have hinside : (fields.flatMap fun entry => under (segments entry.1) (expandDeep entry.2).leaves).Perm
        (fields.flatMap fun entry => under (segments entry.1) entry.2.flat) :=
      List.Perm.flatMap_left fields fun entry hentry =>
        under_perm _ (ih entry hentry (prefixFree_under.1 ((List.pairwise_flatMap.1 h).1 entry hentry)))
    have harranged : ∀ entry ∈ Entries.mapValues expandDeep fields, entry.2.Arranged :=
      List.forall_mem_map.2 fun entry _ => arranged_expandDeep entry.2
    have hmoved := fieldLeaves_foldl_place harranged composable_arranged.nil
    rw [Entries.mapValues, List.flatMap_map] at hmoved
    rw [expandDeep, expandDeepFields_eq, leaves, leavesBy_object _ hplaced]
    exact (hmoved (h.perm hinside.symm)).trans hinside

theorem flat_of_not_hasDottedKey {v : Value} (h : hasDottedKey v = false) : v.flat = v.leaves := by
  induction v using Value.inductionOnFields with
  | other v hobject =>
    rw [flat, leaves, leavesBy_of_not_isObject _ hobject, leavesBy_of_not_isObject _ hobject]
  | object tag fields ih =>
    by_cases hnil : fields = []
    · subst hnil
      rfl
    rw [flat, leaves, leavesBy_object _ hnil, leavesBy_object _ hnil, leavesByFields_eq, leavesByFields_eq]
    refine List.flatMap_congr fun entry hentry => ?_
    obtain ⟨hkey, hvalue⟩ := anyDottedKey_eq_false_iff.1 h entry hentry
    have hsegments : segments entry.1 = [entry.1] := by rw [segments, hkey, if_neg Bool.false_ne_true]
    have hfield := ih entry hentry hvalue
    rw [flat, leaves] at hfield
    rw [hsegments, hfield]

/-- An object keeps its class, and its leaves are moved to where their keys say, none lost and none made up. -/
theorem leaves_apply_deep {tag : Option String} {fields : List (String × Value)}
    (h : PrefixFree (flat (.object tag fields))) :
    ∃ expanded, apply (some .deep) (.object tag fields) = .object tag expanded ∧
      (leaves (.object tag expanded)).Perm (flat (.object tag fields)) := by
  rw [apply_deep_eq]
  cases hdotted : hasDottedKey (.object tag fields) with
  | false => exact ⟨fields, rfl, .of_eq (flat_of_not_hasDottedKey hdotted).symm⟩
  | true => exact ⟨_, rfl, leaves_expandDeep h⟩

/-- A nested object and two dotted keys grow into one object, around a key that sorts between them. -/
theorem leaves_apply_deep_interleaved :
    let fields : List (String × Value) :=
      [("a", .object (some "T") [("x.y", .null)]), ("a-x", .undefined), ("a.b", .bool true),
        ("a.c.d", .object (some "U") [])]
    PrefixFree (flat (.object none fields)) ∧
    ∃ expanded, apply (some .deep) (.object none fields) = .object none expanded ∧
      (leaves (.object none expanded)).Perm
        [(["a", "x", "y"], .null), (["a-x"], .undefined), (["a", "b"], .bool true),
          (["a", "c", "d"], .object (some "U") [])] := by
  intro fields
  have hfree : PrefixFree (flat (.object none fields)) := by decide
  exact ⟨hfree, leaves_apply_deep hfree⟩

end Expansion

end Conform

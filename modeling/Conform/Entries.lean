/- Tables from names to values as lists of entries sorted by name. The order is that of the code points,
   so a table is written in one order only and two tables with the same entries are equal. `insert`
   replaces the value of a name that is present; `find?` is what a table answers, and the lemmas below say what
   `insert` does to the answers, to the order and to the names. -/
namespace Conform.Entries

variable {β : Type}

def names (entries : List (String × β)) : List String :=
  entries.map (·.1)

/-- The names increase strictly: each stands once, in code point order. -/
def Sorted (entries : List (String × β)) : Prop :=
  entries.Pairwise fun a b => a.1 < b.1

def find? (name : String) : List (String × β) → Option β
  | [] => none
  | (n, v) :: rest => if n = name then some v else find? name rest

/-- The table with `value` stored under `name`; an earlier value of that name is replaced. -/
def insert (name : String) (value : β) : List (String × β) → List (String × β)
  | [] => [(name, value)]
  | (n, v) :: rest =>
    if n = name then (name, value) :: rest
    else if name < n then (name, value) :: (n, v) :: rest
    else (n, v) :: insert name value rest

/-- The entries inserted one after the other: of two with the same name the later one stays. -/
def insertAll (entries : List (String × β)) (table : List (String × β)) : List (String × β) :=
  entries.foldl (fun t e => insert e.1 e.2 t) table

def ofList (entries : List (String × β)) : List (String × β) :=
  insertAll entries []

@[simp] theorem find?_insert_self (name : String) (value : β) (t : List (String × β)) :
    find? name (insert name value t) = some value := by
  induction t with
  | nil => simp [insert, find?]
  | cons e rest ih =>
    obtain ⟨n, v⟩ := e
    simp only [insert]
    split
    · simp [find?]
    · split
      · simp [find?]
      · next hn _ => simp [find?, hn, ih]

theorem find?_insert_of_ne {name other : String} (h : other ≠ name) (value : β)
    (t : List (String × β)) : find? other (insert name value t) = find? other t := by
  induction t with
  | nil => simp [insert, find?, Ne.symm h]
  | cons e rest ih =>
    obtain ⟨n, v⟩ := e
    simp only [insert]
    split
    · next hn => subst hn; simp [find?, Ne.symm h]
    · split
      · simp [find?, Ne.symm h]
      · simp only [find?, ih]

theorem mem_names_insert {name n : String} {value : β} {t : List (String × β)} :
    n ∈ names (insert name value t) ↔ n = name ∨ n ∈ names t := by
  induction t with
  | nil => simp [insert, names]
  | cons e rest ih =>
    obtain ⟨m, v⟩ := e
    simp only [insert]
    split
    · next hm => subst hm; simp [names]
    · split
      · simp [names]
      · simp only [names, List.map_cons, List.mem_cons] at ih ⊢
        rw [ih]
        constructor
        · rintro (h | h | h)
          · exact Or.inr (Or.inl h)
          · exact Or.inl h
          · exact Or.inr (Or.inr h)
        · rintro (h | h | h)
          · exact Or.inr (Or.inl h)
          · exact Or.inl h
          · exact Or.inr (Or.inr h)

theorem isSome_find?_iff {name : String} {t : List (String × β)} :
    (find? name t).isSome = true ↔ name ∈ names t := by
  induction t with
  | nil => simp [find?, names]
  | cons e rest ih =>
    obtain ⟨n, v⟩ := e
    simp only [names, List.map_cons, List.mem_cons, find?] at ih ⊢
    by_cases hn : n = name
    · simp [hn]
    · simp [hn, ih, Ne.symm hn]

theorem find?_append (name : String) (t t' : List (String × β)) :
    find? name (t ++ t') = (find? name t).or (find? name t') := by
  induction t with
  | nil => rfl
  | cons e rest ih =>
    rw [List.cons_append, find?, find?]
    split
    · rfl
    · exact ih

/-- What is found under a name stands in the first entry with this name. -/
theorem find?_eq_some_iff {name : String} {value : β} {t : List (String × β)} :
    find? name t = some value ↔ ∃ before behind, t = before ++ (name, value) :: behind ∧ name ∉ names before := by
  constructor
  · intro h
    induction t with
    | nil => cases h
    | cons e rest ih =>
      obtain ⟨n, v⟩ := e
      rw [find?] at h
      split at h
      · next hn =>
        cases h
        exact ⟨[], rest, by rw [hn]; rfl, List.not_mem_nil⟩
      · next hn =>
        obtain ⟨before, behind, rfl, hbefore⟩ := ih h
        refine ⟨(n, v) :: before, behind, rfl, ?_⟩
        rw [names, List.map_cons, List.mem_cons, not_or]
        exact ⟨Ne.symm hn, hbefore⟩
  · rintro ⟨before, behind, rfl, hbefore⟩
    have hnone : find? name before = none := by
      rw [← Option.not_isSome_iff_eq_none, isSome_find?_iff]
      exact hbefore
    rw [find?_append, hnone, find?, if_pos rfl]
    rfl

theorem mem_of_find? {name : String} {value : β} {t : List (String × β)} (h : find? name t = some value) :
    (name, value) ∈ t := by
  induction t with
  | nil => cases h
  | cons e rest ih =>
    obtain ⟨n, v⟩ := e
    simp only [find?] at h
    split at h
    · next hn =>
      cases h
      rw [hn]
      exact List.mem_cons_self
    · exact List.mem_cons_of_mem _ (ih h)

theorem mem_of_mem_insert {name : String} {value : β} {e : String × β} {t : List (String × β)}
    (h : e ∈ insert name value t) : e = (name, value) ∨ e ∈ t := by
  induction t with
  | nil => exact .inl (List.mem_singleton.1 h)
  | cons f rest ih =>
    obtain ⟨n, v⟩ := f
    simp only [insert] at h
    split at h
    · rcases List.mem_cons.1 h with h | h
      · exact .inl h
      · exact .inr (List.mem_cons_of_mem _ h)
    · split at h
      · exact List.mem_cons.1 h
      · rcases List.mem_cons.1 h with h | h
        · exact .inr (List.mem_cons.2 (.inl h))
        · exact (ih h).imp_right (List.mem_cons_of_mem _)

theorem insert_ne_nil (name : String) (value : β) (t : List (String × β)) : insert name value t ≠ [] := by
  cases t with
  | nil => simp [insert]
  | cons e rest =>
    obtain ⟨n, v⟩ := e
    simp only [insert]
    split
    · simp
    · split <;> simp

theorem mem_of_mem_insertAll {e : String × β} {entries t : List (String × β)} (h : e ∈ insertAll entries t) :
    e ∈ entries ∨ e ∈ t := by
  induction entries generalizing t with
  | nil => exact .inr h
  | cons f rest ih =>
    rcases ih h with h | h
    · exact .inl (List.mem_cons_of_mem _ h)
    · rcases mem_of_mem_insert h with rfl | h
      · exact .inl List.mem_cons_self
      · exact .inr h

/-- After insertions a name has the value of the last entry that was inserted under it, and if there is none, the value
    it had before. -/
theorem find?_insertAll (name : String) (entries t : List (String × β)) :
    find? name (insertAll entries t) = (find? name entries.reverse).or (find? name t) := by
  induction entries generalizing t with
  | nil => rfl
  | cons e rest ih =>
    have hfirst : find? name (insert e.1 e.2 t) = (find? name [e]).or (find? name t) := by
      by_cases h : name = e.1
      · rw [h, find?_insert_self, find?, if_pos rfl]
        rfl
      · rw [find?_insert_of_ne h, find?, if_neg (Ne.symm h)]
        rfl
    calc
      find? name (insertAll (e :: rest) t)
      _ = find? name (insertAll rest (insert e.1 e.2 t)) := rfl
      _ = (find? name rest.reverse).or ((find? name [e]).or (find? name t)) := by rw [ih, hfirst]
      _ = (find? name (e :: rest).reverse).or (find? name t) := by
        rw [List.reverse_cons, find?_append, Option.or_assoc]

/-- The table with each value changed by a function, under the same names. -/
def mapValues {γ : Type} (f : β → γ) (t : List (String × β)) : List (String × γ) :=
  t.map fun e => (e.1, f e.2)

theorem find?_mapValues {γ : Type} (f : β → γ) (name : String) (t : List (String × β)) :
    find? name (mapValues f t) = (find? name t).map f := by
  induction t with
  | nil => rfl
  | cons e rest ih =>
    simp only [mapValues, List.map_cons, find?] at ih ⊢
    split
    · rfl
    · exact ih

theorem insert_mapValues {γ : Type} (f : β → γ) (name : String) (value : β) (t : List (String × β)) :
    insert name (f value) (mapValues f t) = mapValues f (insert name value t) := by
  induction t with
  | nil => rfl
  | cons e rest ih =>
    obtain ⟨n, v⟩ := e
    simp only [mapValues, List.map_cons, insert] at ih ⊢
    split
    · rfl
    · split
      · rfl
      · rw [ih, List.map_cons]

theorem find?_filter (keep : String → Bool) (name : String) (t : List (String × β)) :
    find? name (t.filter fun e => keep e.1) = if keep name = true then find? name t else none := by
  induction t with
  | nil => simp [find?]
  | cons e rest ih =>
    obtain ⟨n, v⟩ := e
    by_cases hn : n = name
    · subst hn
      cases hkeep : keep n <;> simp [find?, hkeep, ih]
    · cases hkeep : keep n <;> simp [find?, hkeep, hn, ih]

theorem sorted_nil : Sorted ([] : List (String × β)) :=
  List.Pairwise.nil

theorem sorted_mapValues {γ : Type} (f : β → γ) {t : List (String × β)} (h : Sorted t) : Sorted (mapValues f t) :=
  List.pairwise_map.2 h

theorem sorted_insert {t : List (String × β)} (h : Sorted t) (name : String) (value : β) :
    Sorted (insert name value t) := by
  induction t with
  | nil => exact List.pairwise_singleton _ _
  | cons e rest ih =>
    obtain ⟨n, v⟩ := e
    obtain ⟨hn, hrest⟩ := List.pairwise_cons.1 h
    simp only [insert]
    split
    · next hm => subst hm; exact List.pairwise_cons.2 ⟨hn, hrest⟩
    · next hm =>
      split
      · next hlt =>
        refine List.pairwise_cons.2 ⟨?_, h⟩
        intro e he
        rcases List.mem_cons.1 he with rfl | he
        · exact hlt
        · exact String.lt_trans hlt (hn e he)
      · next hlt =>
        refine List.pairwise_cons.2 ⟨?_, ih hrest⟩
        intro e he
        have hmem : e.1 ∈ names (insert name value rest) := List.mem_map_of_mem he
        rcases mem_names_insert.1 hmem with heq | hmem
        · rw [heq]
          exact Std.lt_of_le_of_ne (String.not_lt.1 hlt) hm
        · obtain ⟨e', he', heq⟩ := List.mem_map.1 hmem
          rw [← heq]
          exact hn e' he'

theorem sorted_insertAll {t : List (String × β)} (h : Sorted t) (entries : List (String × β)) :
    Sorted (insertAll entries t) := by
  induction entries generalizing t with
  | nil => exact h
  | cons e rest ih => exact ih (sorted_insert h e.1 e.2)

theorem sorted_ofList (entries : List (String × β)) : Sorted (ofList entries) :=
  sorted_insertAll sorted_nil entries

theorem insert_of_forall_lt {name : String} {t : List (String × β)} (h : ∀ e ∈ t, e.1 < name) (value : β) :
    insert name value t = t ++ [(name, value)] := by
  induction t with
  | nil => rfl
  | cons e rest ih =>
    obtain ⟨n, v⟩ := e
    obtain ⟨hn, hrest⟩ := List.forall_mem_cons.1 h
    have hne : n ≠ name := String.ne_of_lt hn
    have hlt : ¬name < n := String.lt_asymm hn
    rw [insert, if_neg hne, if_neg hlt, ih hrest, List.cons_append]

theorem find?_eq_none_of_forall_ne {name : String} {t : List (String × β)} (h : ∀ e ∈ t, e.1 ≠ name) :
    find? name t = none := by
  rw [← Option.not_isSome_iff_eq_none, isSome_find?_iff]
  rintro hmem
  obtain ⟨e, he, heq⟩ := List.mem_map.1 hmem
  exact h e he heq

/-- The first name of a sorted table does not stand in it once more. -/
theorem find?_tail_eq_none {e : String × β} {rest : List (String × β)} (h : Sorted (e :: rest)) :
    find? e.1 rest = none :=
  find?_eq_none_of_forall_ne fun _ hx => (String.ne_of_lt (List.rel_of_pairwise_cons h hx)).symm

/-- A new name adds an entry and changes no other. -/
theorem insert_perm_of_find?_eq_none {name : String} {t : List (String × β)} (h : find? name t = none) (value : β) :
    (insert name value t).Perm ((name, value) :: t) := by
  induction t with
  | nil => exact .refl _
  | cons e rest ih =>
    obtain ⟨n, v⟩ := e
    have hn : n ≠ name := by
      rintro rfl
      simp [find?] at h
    rw [find?, if_neg hn] at h
    rw [insert, if_neg hn]
    split
    · exact .refl _
    · exact ((ih h).cons _).trans (.swap _ _ _)

/-- A sorted table has one entry of a name that it answers for. Inserting under this name changes this entry alone. -/
theorem exists_perm_of_find?_eq_some {name : String} {old : β} {t : List (String × β)} (hsorted : Sorted t)
    (h : find? name t = some old) :
    ∃ rest, t.Perm ((name, old) :: rest) ∧ ∀ value, (insert name value t).Perm ((name, value) :: rest) := by
  induction t with
  | nil => cases h
  | cons e rest ih =>
    obtain ⟨n, v⟩ := e
    by_cases hn : n = name
    · subst hn
      rw [find?, if_pos rfl] at h
      cases h
      exact ⟨rest, .refl _, fun value => by rw [insert, if_pos rfl]⟩
    · rw [find?, if_neg hn] at h
      -- the name stands behind the first one, so that it is not inserted before it
      have hlt : n < name := List.rel_of_pairwise_cons hsorted (mem_of_find? h)
      obtain ⟨others, hrest, hinsert⟩ := ih hsorted.of_cons h
      refine ⟨(n, v) :: others, (hrest.cons _).trans (.swap _ _ _), fun value => ?_⟩
      rw [insert, if_neg hn, if_neg (String.lt_asymm hlt)]
      exact ((hinsert value).cons _).trans (.swap _ _ _)

theorem eq_or_lt_of_find? {name : String} {e : String × β} {rest : List (String × β)} (h : Sorted (e :: rest))
    (hname : (find? name (e :: rest)).isSome = true) : name = e.1 ∨ e.1 < name := by
  rcases List.mem_cons.1 (isSome_find?_iff.1 hname) with hname | hname
  · exact .inl hname
  · obtain ⟨e', he', rfl⟩ := List.mem_map.1 hname
    exact .inr (List.rel_of_pairwise_cons h he')

/-- Sorted tables with the same answers are the same. -/
theorem eq_of_find?_eq {t t' : List (String × β)} (ht : Sorted t) (ht' : Sorted t')
    (h : ∀ name, find? name t = find? name t') : t = t' := by
  induction t generalizing t' with
  | nil =>
    cases t' with
    | nil => rfl
    | cons e' rest' =>
      have hhead := h e'.1
      simp [find?] at hhead
  | cons e rest ih =>
    cases t' with
    | nil =>
      have hhead := h e.1
      simp [find?] at hhead
    | cons e' rest' =>
      -- each of the first names stands in the other table, where it is not before the first one
      have hname : e.1 = e'.1 := by
        have hsome : (find? e.1 (e' :: rest')).isSome = true := by rw [← h]; simp [find?]
        have hsome' : (find? e'.1 (e :: rest)).isSome = true := by rw [h]; simp [find?]
        rcases eq_or_lt_of_find? ht' hsome with heq | hlt
        · exact heq
        · rcases eq_or_lt_of_find? ht hsome' with heq | hlt'
          · exact heq.symm
          · exact absurd hlt' (String.lt_asymm hlt)
      have hvalue : e.2 = e'.2 := by
        have hhead := h e.1
        simpa [find?, hname] using hhead
      have hrest : rest = rest' := by
        refine ih (List.Pairwise.of_cons ht) (List.Pairwise.of_cons ht') fun name => ?_
        by_cases hn : e.1 = name
        · rw [← hn, find?_tail_eq_none ht, hname, find?_tail_eq_none ht']
        · have hother := h name
          rwa [find?, if_neg hn, find?, if_neg (hname ▸ hn)] at hother
      rw [Prod.ext hname hvalue, hrest]

end Conform.Entries

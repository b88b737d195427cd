import Mathlib.Data.List.Lex
/- Documents: nodes with nodes inside them, in order. A position is the list of the indices that lead to a node from
   the outermost one, and positions are ordered as they are read: a node comes before the nodes inside it, and these
   come from left to right, which is the lexicographic order of the lists. `FirstFault` is the first node in this order
   that is at fault. A search that looks at each node before the nodes inside it finds exactly this one
   (`Searches.eq_some_iff`), and finds nothing only if no node is at fault (`Searches.eq_none_iff`). -/
namespace Conform.Document

variable {α ε : Type} {inside : α → List α} {fault : α → Option ε} {search : α → Option ε}

/-- The node at a position: each index picks one of the nodes inside the one before. -/
def nodeAt? (inside : α → List α) (a : α) : List Nat → Option α
  | [] => some a
  | i :: pos => (inside a)[i]?.bind fun b => nodeAt? inside b pos

theorem nodeAt?_cons_eq_some_iff {a b : α} {i : Nat} {pos : List Nat} :
    nodeAt? inside a (i :: pos) = some b ↔ ∃ c, (inside a)[i]? = some c ∧ nodeAt? inside c pos = some b := by
  rw [nodeAt?, Option.bind_eq_some_iff]

/-- A property holds of all nodes when it holds of the outermost one and of all nodes of those inside it. -/
theorem forall_nodeAt?_iff {P : α → Prop} {a : α} :
    (∀ pos b, nodeAt? inside a pos = some b → P b) ↔
      P a ∧ ∀ c ∈ inside a, ∀ pos b, nodeAt? inside c pos = some b → P b := by
  constructor
  · intro h
    refine ⟨h [] a rfl, fun c hc pos b hb => ?_⟩
    obtain ⟨i, hi⟩ := List.mem_iff_getElem?.1 hc
    exact h (i :: pos) b (nodeAt?_cons_eq_some_iff.2 ⟨c, hi, hb⟩)
  · rintro ⟨hself, hinside⟩ pos b hb
    cases pos with
    | nil =>
      cases hb
      exact hself
    | cons i pos =>
      obtain ⟨c, hc, hb⟩ := nodeAt?_cons_eq_some_iff.1 hb
      exact hinside c (List.mem_of_getElem? hc) pos b hb

/-- The node at the position is at fault, and no node that is read before it is. -/
structure FirstFault (inside : α → List α) (fault : α → Option ε) (a : α) (pos : List Nat) (b : α) (e : ε) : Prop where
  stands : nodeAt? inside a pos = some b
  faulty : fault b = some e
  first : ∀ earlier < pos, ∀ c, nodeAt? inside a earlier = some c → fault c = none

theorem FirstFault.unique {a b c : α} {pos other : List Nat} {e f : ε} (h : FirstFault inside fault a pos b e)
    (h' : FirstFault inside fault a other c f) : e = f := by
  rcases lt_trichotomy pos other with hlt | rfl | hlt
  · have hnone := h'.first pos hlt b h.stands
    rw [h.faulty] at hnone
    cases hnone
  · obtain rfl : b = c := Option.some.inj (h.stands.symm.trans h'.stands)
    exact Option.some.inj (h.faulty.symm.trans h'.faulty)
  · have hnone := h.first other hlt c h'.stands
    rw [h'.faulty] at hnone
    cases hnone

/-- The search looks at a node and then, from left to right, into the nodes inside it. -/
structure Searches (inside : α → List α) (fault search : α → Option ε) : Prop where
  /-- There is no way inwards without end. -/
  bounded : WellFounded fun b a => b ∈ inside a
  step : ∀ a, search a = (fault a).or ((inside a).findSome? search)

namespace Searches
variable (h : Searches inside fault search)
include h

theorem fault_eq_none {a b : α} {pos : List Nat} (hsearch : search a = none) (hb : nodeAt? inside a pos = some b) :
    fault b = none := by
  induction pos generalizing a with
  | nil =>
    cases hb
    rw [h.step, Option.or_eq_none_iff] at hsearch
    exact hsearch.1
  | cons i pos ih =>
    obtain ⟨c, hc, hb⟩ := nodeAt?_cons_eq_some_iff.1 hb
    rw [h.step, Option.or_eq_none_iff, List.findSome?_eq_none_iff] at hsearch
    exact ih (hsearch.2 c (List.mem_of_getElem? hc)) hb

theorem firstFault_inside {a b c : α} {e : ε} {left right : List α} {pos : List Nat} (hfault : fault a = none)
    (hinside : inside a = left ++ b :: right) (hleft : ∀ d ∈ left, search d = none)
    (hfirst : FirstFault inside fault b pos c e) : FirstFault inside fault a (left.length :: pos) c e where
  stands := nodeAt?_cons_eq_some_iff.2 ⟨b, by simp [hinside], hfirst.stands⟩
  faulty := hfirst.faulty
  first := by
    intro earlier hearlier d hd
    cases earlier with
    | nil =>
      cases hd
      exact hfault
    | cons i earlier =>
      obtain ⟨n, hn, hd⟩ := nodeAt?_cons_eq_some_iff.1 hd
      rcases List.cons_lt_cons_iff.1 hearlier with hi | ⟨rfl, hlt⟩
      · rw [hinside, List.getElem?_append_left hi] at hn
        exact h.fault_eq_none (hleft n (List.mem_of_getElem? hn)) hd
      · obtain rfl : b = n := by simpa [hinside] using hn
        exact hfirst.first earlier hlt d hd

theorem exists_firstFault {a : α} {e : ε} (hsearch : search a = some e) :
    ∃ pos b, FirstFault inside fault a pos b e := by
  induction a using h.bounded.induction generalizing e with
  | _ a ih =>
    rw [h.step, Option.or_eq_some_iff, List.findSome?_eq_some_iff] at hsearch
    rcases hsearch with hfault | ⟨hfault, left, b, right, hinside, hb, hleft⟩
    · exact ⟨[], a, rfl, hfault, fun earlier hearlier => absurd hearlier (List.not_lt_nil earlier)⟩
    · obtain ⟨pos, c, hfirst⟩ := ih b (by rw [hinside]; simp) hb
      exact ⟨_, c, h.firstFault_inside hfault hinside hleft hfirst⟩

theorem eq_none_iff {a : α} : search a = none ↔ ∀ pos b, nodeAt? inside a pos = some b → fault b = none := by
  constructor
  · exact fun hsearch pos b hb => h.fault_eq_none hsearch hb
  · intro hnone
    cases hsearch : search a with
    | none => rfl
    | some e =>
      obtain ⟨pos, b, hfirst⟩ := h.exists_firstFault hsearch
      have hb := hnone pos b hfirst.stands
      rw [hfirst.faulty] at hb
      cases hb

/-- What is found is the first fault. -/
theorem eq_some_iff {a : α} {e : ε} : search a = some e ↔ ∃ pos b, FirstFault inside fault a pos b e := by
  constructor
  · exact h.exists_firstFault
  · rintro ⟨pos, b, hfirst⟩
    cases hsearch : search a with
    | none =>
      have hb := h.fault_eq_none hsearch hfirst.stands
      rw [hfirst.faulty] at hb
      cases hb
    | some f =>
      obtain ⟨other, c, hother⟩ := h.exists_firstFault hsearch
      rw [hother.unique hfirst]

end Searches

end Conform.Document

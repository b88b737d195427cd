import Conform.Proofs.Frozen
/- Dispatchers that are installed together and one by one. An installer makes a context at once or its query, its assertion
   and its check each by itself; both ways lead to the same matcher, the same heading and the same sink (`install_eq`). What
   is asked of either of them is answered as by a context that was just built, whatever was asked before (`run_observe`).
   By induction on the requests, it makes no difference which of them goes to which dispatchers (`installations_agree`). -/
namespace Conform

/-- Asks the context and notes what is seen: the answer, and the lines that were written meanwhile. -/
def Question.observe (q : Question) (c : Context) : Journaled Reply := do
  let before ← get
  let answer ← q.ask c
  let after ← get
  return ⟨some answer, after.lines.drop before.lines.length⟩

/-- What is seen of a question does not depend on what was asked and written before. -/
theorem Question.run_observe {q : Question} {c : Context} (h : Journaled.Uniform (q.ask c)) (j : Journal) :
    ((q.observe c).run j).1 = q.replyOf c ∧ ((q.observe c).run j).2.lines = j.lines ++ (q.replyOf c).lines := by
  obtain ⟨hanswer, hlines⟩ := h j
  have hdrop : ((q.ask c).run j).2.lines.drop j.lines.length = (q.replyOf c).lines := by
    rw [hlines, List.drop_left]
    rfl
  refine ⟨?_, hlines⟩
  show Reply.mk (some ((q.ask c).run j).1) (((q.ask c).run j).2.lines.drop j.lines.length) = _
  rw [hdrop, hanswer]
  rfl

/-- The headings of a context, of its assertion and of its check. -/
def Context.headings (c : Context) : Journaled (List String) := do
  return [← c.heading, ← c.assertion.heading.next, ← c.check.heading.next]

namespace Installer
variable {H : Type}

/-- How the dispatchers for a scope are installed. -/
inductive Way where
  | together
  | oneByOne

/-- The dispatchers for a scope. -/
def install (i : Installer H) (scope : Scope H) : Way → Context
  | .together => i.context scope
  | .oneByOne => ⟨i.installQuery, i.installAssertion scope, i.installCheck scope⟩

/-- Makes requests one after the other. Each goes to the dispatchers that were installed in the given way. -/
def observeAll (i : Installer H) (scope : Scope H) (requests : List (Way × Question)) : Journaled (List Reply) :=
  requests.mapM fun request => request.2.observe (i.install scope request.1)

variable (i : Installer H) (scope : Scope H)

theorem install_eq (way : Way) : i.install scope way = i.context scope := by
  cases way <;> rfl

theorem run_headings (way : Way) (j : Journal) :
    ((i.install scope way).headings.run j).1 = List.replicate 3 (i.heading scope) := by
  rw [install_eq]
  rfl

theorem run_observeAll (requests : List (Way × Question)) (j : Journal) :
    ((i.observeAll scope requests).run j).1 = requests.map (fun request => request.2.replyOf (i.context scope)) ∧
      ((i.observeAll scope requests).run j).2.lines =
        j.lines ++ requests.flatMap fun request => (request.2.replyOf (i.context scope)).lines := by
  induction requests generalizing j with
  | nil => exact ⟨rfl, (List.append_nil _).symm⟩
  | cons request rest ih =>
    obtain ⟨way, q⟩ := request
    obtain ⟨hreply, hlines⟩ := Question.run_observe (q.uniform_ask i scope) j
    obtain ⟨hreplies, hrest⟩ := ih ((q.observe (i.context scope)).run j).2
    rw [observeAll, List.mapM_cons, install_eq]
    constructor
    · rw [List.map_cons, ← hreply, ← hreplies]
      rfl
    · rw [List.flatMap_cons, ← List.append_assoc, ← hlines, ← hrest]
      rfl

/-- Two runs of the same questions from any two journals, each question asked of the dispatchers that were installed in any
    way: the replies are the same, line by line, and so are all the lines that were written. Afterwards the contexts, the
    assertions and the checks of both ways have the heading of the scope. A sink that keeps all lines shows what is offered
    to any other. -/
theorem installations_agree (questions : List (Question × Way × Way)) (j k : Journal) :
    let first := (i.observeAll scope (questions.map fun entry => (entry.2.1, entry.1))).run j
    let second := (i.observeAll scope (questions.map fun entry => (entry.2.2, entry.1))).run k
    first.1 = second.1 ∧
    (∃ lines, first.2.lines = j.lines ++ lines ∧ second.2.lines = k.lines ++ lines ∧
      lines = first.1.flatMap Reply.lines) ∧
    ∀ way, ((i.install scope way).headings.run first.2).1 = List.replicate 3 (i.heading scope) ∧
      ((i.install scope way).headings.run second.2).1 = List.replicate 3 (i.heading scope) := by
  intro first second
  obtain ⟨hfirst, hfirstLines⟩ := i.run_observeAll scope (questions.map fun entry => (entry.2.1, entry.1)) j
  obtain ⟨hsecond, hsecondLines⟩ := i.run_observeAll scope (questions.map fun entry => (entry.2.2, entry.1)) k
  rw [List.map_map] at hfirst hsecond
  rw [List.flatMap_map] at hfirstLines hsecondLines
  refine ⟨hfirst.trans hsecond.symm, ⟨_, hfirstLines, hsecondLines, ?_⟩,
    fun way => ⟨i.run_headings scope way first.2, i.run_headings scope way second.2⟩⟩
  show _ = first.1.flatMap Reply.lines
  rw [hfirst, List.flatMap_map]
  rfl

end Installer

end Conform

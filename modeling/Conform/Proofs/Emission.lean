import Conform.Proofs.Dispatch
/- Who says what in a run. Assertions and checks share one heading and one journal; between their calls queries are
   asked. What a call does to the journal is told by its answer (`Observed.Lawful`), from any journal and for any spec.
   So a call says at most one thing, under the heading that is next (`Observed.Lawful.steps`), and by induction on the
   calls (`Ledger`) the headings of a run are numbered by what was said (`emissions_accounted`). -/
namespace Conform

/-! ## What one call does -/

section
variable (s : Spec) (v : Value) (description : String) (j : Journal)

/-- What an assertion does to the journal, by its answer: it makes a heading if it ends with a diagnostic, and not for
    a fault of the spec, and it writes nothing. -/
def Assertion.Accounts (a : Assertion) (j : Journal) : Except Fault Unit × Journal → Prop
  | (.ok _, j') => j' = j
  | (.error (.spec _), j') => j' = j
  | (.error (.assertion d), j') => d.heading = a.heading j.headings ∧ j' = j.withHeading

theorem Assertion.accounts_is (a : Assertion) : a.Accounts j ((a.is s v description).run j) := by
  rw [Assertion.run_is]
  cases a.matcher.registry.validate s with
  | error _ => exact rfl
  | ok _ =>
    cases a.matcher.firstFailure s v with
    | none => exact rfl
    | some _ => exact ⟨rfl, rfl⟩

theorem Assertion.accounts_not (a : Assertion) : a.Accounts j ((a.not s v description).run j) := by
  rw [Assertion.run_not]
  cases a.matcher.registry.validate s with
  | error _ => exact rfl
  | ok _ =>
    cases a.matcher.firstFailure s v with
    | none => exact ⟨rfl, rfl⟩
    | some _ => exact rfl

/-- What a check does to the journal, by its answer: it makes a heading and writes one line, which is a warning if the
    expectation is not met and an error if the spec is at fault. -/
def Check.Accounts (c : Check) (j : Journal) : Except SpecError Bool × Journal → Prop
  | (.ok true, j') => j' = j
  | (.ok false, j') => ∃ d : Diagnostic,
    d.heading = c.heading j.headings ∧ j' = j.withHeading.add c.sink ⟨.warn, d.message⟩
  | (.error e, j') => j' = j.withHeading.add c.sink ⟨.error, errorMessage (c.heading j.headings) e⟩

theorem Check.accounts_is (c : Check) : c.Accounts j ((c.is s v description).run j) := by
  rw [Check.run_is]
  cases c.matcher.registry.validate s with
  | error _ => exact rfl
  | ok _ =>
    cases c.matcher.firstFailure s v with
    | none => exact rfl
    | some _ => exact ⟨_, rfl, rfl⟩

theorem Check.accounts_not (c : Check) : c.Accounts j ((c.not s v description).run j) := by
  rw [Check.run_not]
  cases c.matcher.registry.validate s with
  | error _ => exact rfl
  | ok _ =>
    cases c.matcher.firstFailure s v with
    | none => exact ⟨_, rfl, rfl⟩
    | some _ => exact rfl

end

/-! ## Calls and what is seen of them -/

/-- What a value is asked to be. -/
inductive Expectation where
  | is (s : Spec)
  | not (s : Spec)
  | isNamed (name : String)
  | notNamed (name : String)

def Query.meets (q : Query) (v : Value) : Expectation → Except SpecError Bool
  | .is s => q.is s v
  | .not s => q.not s v
  | .isNamed name => q.isNamed name v
  | .notNamed name => q.notNamed name v

def Assertion.meets (a : Assertion) (v : Value) (description : String) : Expectation → Journaled (Except Fault Unit)
  | .is s => a.is s v description
  | .not s => a.not s v description
  | .isNamed name => a.isNamed name v description
  | .notNamed name => a.notNamed name v description

def Check.meets (c : Check) (v : Value) (description : String) : Expectation → Journaled (Except SpecError Bool)
  | .is s => c.is s v description
  | .not s => c.not s v description
  | .isNamed name => c.isNamed name v description
  | .notNamed name => c.notNamed name v description

/-- One call of a dispatcher over a matcher. -/
inductive Call where
  | query (m : Matcher) (e : Expectation) (v : Value)
  | trace (m : Matcher) (s : Spec) (v : Value)
  | assertion (m : Matcher) (e : Expectation) (v : Value) (description : String)
  | check (m : Matcher) (e : Expectation) (v : Value) (description : String)

/-- What a call gives back. -/
inductive Answer where
  | query (answer : Except SpecError Bool)
  | trace (answer : Except SpecError Trace)
  | assertion (answer : Except Fault Unit)
  | check (answer : Except SpecError Bool)

/-- Makes a call. Assertions and checks share the heading, and all lines are kept. -/
def Call.run (heading : Heading) : Call → Journaled Answer
  | query m e v => return .query ((Query.mk m).meets v e)
  | trace m s v => return .trace ((Query.mk m).trace s v)
  | assertion m e v description => return .assertion (← (Assertion.mk m heading).meets v description e)
  | check m e v description => return .check (← (Check.mk m heading .memory).meets v description e)

/-- A call with its answer and the journal before and after it. -/
structure Observed where
  call : Call
  answer : Answer
  before : Journal
  after : Journal

/-- Makes a call and notes what it did. -/
def Call.observe (heading : Heading) (call : Call) : Journaled Observed := do
  let before ← get
  let answer ← call.run heading
  return ⟨call, answer, before, ← get⟩

def Call.observeAll (heading : Heading) (calls : List Call) : Journaled (List Observed) :=
  calls.mapM (observe heading)

namespace Observed

/-- The call answers in its kind and does to the journal what its answer says. Queries leave the journal alone, whatever
    they answer. -/
def Lawful (heading : Heading) (o : Observed) : Prop :=
  match o.call, o.answer with
  | .query .., .query _ => o.after = o.before
  | .trace .., .trace _ => o.after = o.before
  | .assertion m .., .assertion answer => (Assertion.mk m heading).Accounts o.before (answer, o.after)
  | .check m .., .check answer => (Check.mk m heading .memory).Accounts o.before (answer, o.after)
  | _, _ => False

end Observed

theorem Assertion.accounts_meets (a : Assertion) (v : Value) (description : String) (j : Journal) (e : Expectation) :
    a.Accounts j ((a.meets v description e).run j) := by
  cases e with
  | is s => exact accounts_is s v description j a
  | not s => exact accounts_not s v description j a
  | isNamed name => exact accounts_is (.leaf name) v description j a
  | notNamed name => exact accounts_not (.leaf name) v description j a

theorem Check.accounts_meets (c : Check) (v : Value) (description : String) (j : Journal) (e : Expectation) :
    c.Accounts j ((c.meets v description e).run j) := by
  cases e with
  | is s => exact accounts_is s v description j c
  | not s => exact accounts_not s v description j c
  | isNamed name => exact accounts_is (.leaf name) v description j c
  | notNamed name => exact accounts_not (.leaf name) v description j c

/-- Every call obeys the law, from any journal. -/
theorem Call.lawful_observe (heading : Heading) (call : Call) (j : Journal) :
    ((call.observe heading).run j).1.Lawful heading := by
  cases call with
  | query m e v => exact rfl
  | trace m s v => exact rfl
  | assertion m e v description => exact Assertion.accounts_meets ⟨m, heading⟩ v description j e
  | check m e v description => exact Check.accounts_meets ⟨m, heading, .memory⟩ v description j e

/-! ## Emissions -/

/-- What is said under a heading: an assertion gives back a diagnostic, a check writes a line. -/
inductive Emission where
  | raised (d : Diagnostic)
  | written (line : Line)

/-- The line was written under the heading: it is the message of a diagnostic with this heading, or a fault of a spec
    after this heading. -/
def Line.Carries (heading : String) (line : Line) : Prop :=
  match line.level with
  | .warn => ∃ d : Diagnostic, d.heading = heading ∧ line.text = d.message
  | .error => ∃ e : SpecError, line.text = Check.errorMessage heading e
  | .log => False

/-- The emission was made under the heading. -/
def Emission.Carries (heading : String) : Emission → Prop
  | raised d => d.heading = heading
  | written line => line.Carries heading

namespace Observed

def raised? (o : Observed) : Option Diagnostic :=
  match o.answer with
  | .assertion (.error (.assertion d)) => some d
  | _ => none

def lines (o : Observed) : List Line :=
  o.after.lines.drop o.before.lines.length

def emissions (o : Observed) : List Emission :=
  o.raised?.toList.map .raised ++ o.lines.map .written

/-- A call says at most one thing, under the heading that is next, and the journal grows by what it says. -/
structure Steps (heading : Heading) (o : Observed) : Prop where
  length_emissions_le : o.emissions.length ≤ 1
  carries : ∀ e ∈ o.emissions, e.Carries (heading o.before.headings)
  headings_eq : o.after.headings = o.before.headings + o.emissions.length
  lines_eq : o.after.lines = o.before.lines ++ o.lines

section
variable {heading : Heading} {o : Observed}

theorem steps_of_emits {e : Emission} (hemitted : o.emissions = [e]) (he : e.Carries (heading o.before.headings))
    (hheadings : o.after.headings = o.before.headings + 1) (hlines : o.after.lines = o.before.lines ++ o.lines) :
    o.Steps heading where
  length_emissions_le := by rw [hemitted]; exact Nat.le_refl 1
  carries e' he' := by
    rw [hemitted, List.mem_singleton] at he'
    rwa [he']
  headings_eq := by rw [hemitted, hheadings, List.length_singleton]
  lines_eq := hlines

theorem steps_of_silent (hraised : o.raised? = none) (h : o.after = o.before) : o.Steps heading := by
  have hlines : o.lines = [] := by rw [lines, h, List.drop_length]
  have hemitted : o.emissions = [] := by rw [emissions, hraised, hlines]; rfl
  exact {
    length_emissions_le := by rw [hemitted]; exact Nat.zero_le 1
    carries := by rw [hemitted]; exact fun e he => nomatch he
    headings_eq := by rw [hemitted, h]; rfl
    lines_eq := by rw [hlines, h, List.append_nil] }

theorem steps_of_raised {d : Diagnostic} (hraised : o.raised? = some d) (hd : d.heading = heading o.before.headings)
    (h : o.after = o.before.withHeading) : o.Steps heading := by
  have hsame : o.after.lines = o.before.lines := by rw [h]; rfl
  have hlines : o.lines = [] := by rw [lines, hsame, List.drop_length]
  have hemitted : o.emissions = [.raised d] := by rw [emissions, hraised, hlines]; rfl
  exact steps_of_emits hemitted hd (by rw [h]; rfl) (by rw [hlines, hsame, List.append_nil])

theorem steps_of_written {line : Line} (hraised : o.raised? = none)
    (h : o.after = o.before.withHeading.add .memory line) (hline : line.Carries (heading o.before.headings)) :
    o.Steps heading := by
  have hafter : o.after.lines = o.before.lines ++ [line] := by rw [h, Journal.lines_add_memory]; rfl
  have hlines : o.lines = [line] := by rw [lines, hafter, List.drop_left]
  have hemitted : o.emissions = [.written line] := by rw [emissions, hraised, hlines]; rfl
  exact steps_of_emits hemitted hline (by rw [h, Journal.headings_add]; rfl) (by rw [hlines, hafter])

theorem Lawful.steps (h : o.Lawful heading) : o.Steps heading := by
  obtain ⟨call, answer, before, after⟩ := o
  -- by the kind of the call and what it answers; an answer of another kind is against the law
  cases call with
  | query =>
    cases answer with
    | query => exact steps_of_silent rfl h
    | _ => exact h.elim
  | trace =>
    cases answer with
    | trace => exact steps_of_silent rfl h
    | _ => exact h.elim
  | assertion =>
    cases answer with
    | assertion answer =>
      rcases answer with (e | d) | _
      · exact steps_of_silent rfl h
      · exact steps_of_raised rfl h.1 h.2
      · exact steps_of_silent rfl h
    | _ => exact h.elim
  | check =>
    cases answer with
    | check answer =>
      rcases answer with e | _ | _
      · exact steps_of_written rfl h ⟨e, rfl⟩
      · obtain ⟨d, hd, h⟩ := h
        exact steps_of_written rfl h ⟨d, hd, rfl⟩
      · exact steps_of_silent rfl h
    | _ => exact h.elim

end

end Observed

/-! ## Runs -/

/-- Observed calls that lead from one journal to another: each starts where the one before it ended and does what its
    answer says. -/
inductive Ledger (heading : Heading) : Journal → List Observed → Journal → Prop where
  | nil (j : Journal) : Ledger heading j [] j
  | cons {o : Observed} {rest : List Observed} {j : Journal} (h : o.Lawful heading)
    (hrest : Ledger heading o.after rest j) : Ledger heading o.before (o :: rest) j

namespace Ledger
variable {heading : Heading} {j j' : Journal} {observations : List Observed}

theorem headings_eq (h : Ledger heading j observations j') :
    j'.headings = j.headings + (observations.flatMap Observed.emissions).length := by
  induction h with
  | nil j => rfl
  | @cons o rest j h _ ih =>
    rw [ih, h.steps.headings_eq, List.flatMap_cons, List.length_append, Nat.add_assoc]

theorem lines_eq (h : Ledger heading j observations j') :
    j'.lines = j.lines ++ observations.flatMap Observed.lines := by
  induction h with
  | nil j => exact (List.append_nil _).symm
  | @cons o rest j h _ ih =>
    rw [ih, h.steps.lines_eq, List.flatMap_cons, List.append_assoc]

theorem carries (h : Ledger heading j observations j') {k : Nat} {e : Emission}
    (he : (observations.flatMap Observed.emissions)[k]? = some e) : e.Carries (heading (j.headings + k)) := by
  induction h generalizing k with
  | nil j => cases he
  | @cons o rest j h _ ih =>
    rw [List.flatMap_cons] at he
    by_cases hk : k < o.emissions.length
    · -- the first call says no more than one thing, so this is it
      obtain rfl : k = 0 := Nat.lt_one_iff.1 (Nat.lt_of_lt_of_le hk h.steps.length_emissions_le)
      rw [List.getElem?_append_left hk] at he
      exact h.steps.carries e (List.mem_of_getElem? he)
    · -- the rest of the calls starts as many headings later as the first call made
      have hle : o.emissions.length ≤ k := Nat.le_of_not_lt hk
      rw [List.getElem?_append_right hle] at he
      have hcarries := ih he
      rwa [h.steps.headings_eq, Nat.add_assoc, Nat.add_sub_cancel' hle] at hcarries

end Ledger

theorem Call.ledger_observeAll (heading : Heading) (calls : List Call) (j : Journal) :
    ((observeAll heading calls).run j).1.map Observed.call = calls ∧
    Ledger heading j ((observeAll heading calls).run j).1 ((observeAll heading calls).run j).2 := by
  induction calls generalizing j with
  | nil => exact ⟨rfl, .nil j⟩
  | cons call rest ih =>
    have hrest := ih ((call.observe heading).run j).2
    have hrun : (observeAll heading (call :: rest)).run j =
        (((call.observe heading).run j).1 :: ((observeAll heading rest).run ((call.observe heading).run j).2).1,
          ((observeAll heading rest).run ((call.observe heading).run j).2).2) := by
      rw [observeAll, List.mapM_cons]
      rfl
    rw [hrun]
    exact ⟨congrArg (call :: ·) hrest.1, .cons (lawful_observe heading call j) hrest.2⟩

/-- Every emission is a diagnostic that an assertion gave back or a line that a check wrote. -/
theorem Observed.length_flatMap_emissions (observations : List Observed) :
    (observations.flatMap emissions).length =
      (observations.filterMap raised?).length + (observations.flatMap lines).length := by
  induction observations with
  | nil => rfl
  | cons o rest ih =>
    have ho : o.emissions.length = o.raised?.toList.length + o.lines.length := by
      rw [emissions, List.length_append, List.length_map, List.length_map]
    rw [List.flatMap_cons, List.flatMap_cons, List.length_append, List.length_append, ih, ho]
    cases hraised : o.raised? with
    | none => rw [List.filterMap_cons_none hraised, Option.toList_none, List.length_nil]; omega
    | some d => rw [List.filterMap_cons_some hraised, Option.toList_some, List.length_singleton, List.length_cons]; omega

/-- What is seen of a run of calls that starts from the empty journal and ends with the journal `j`. -/
structure Accounted (heading : Heading) (calls : List Call) (observations : List Observed) (j : Journal) : Prop where
  /-- All calls are answered, in turn. -/
  answered : observations.map Observed.call = calls
  /-- Each call starts from the journal that the one before it left and does to it what its answer says. -/
  ledger : Ledger heading .empty observations j
  /-- A heading is made for every diagnostic that is given back and every line that is written, and for nothing else. -/
  headings_eq : j.headings = (observations.filterMap Observed.raised?).length + j.lines.length
  /-- The lines are those of the calls, in turn. -/
  lines_eq : j.lines = observations.flatMap Observed.lines
  /-- The emissions of all calls, in turn, carry the first heading, the second, and so on. -/
  carries : ∀ (k : Nat) (e : Emission),
    (observations.flatMap Observed.emissions)[k]? = some e → e.Carries (heading k)

theorem emissions_accounted (heading : Heading) (calls : List Call) :
    Accounted heading calls ((Call.observeAll heading calls).run .empty).1
      ((Call.observeAll heading calls).run .empty).2 := by
  obtain ⟨hcalls, hledger⟩ := Call.ledger_observeAll heading calls .empty
  have hlines := hledger.lines_eq
  have hheadings := hledger.headings_eq
  rw [Journal.empty, List.nil_append] at hlines
  rw [Observed.length_flatMap_emissions, Journal.empty, Nat.zero_add, ← hlines] at hheadings
  exact {
    answered := hcalls
    ledger := hledger
    headings_eq := hheadings
    lines_eq := hlines
    carries := fun k e he => by
      have hcarries := hledger.carries he
      rwa [Journal.empty, Nat.zero_add] at hcarries }

example :
    let m : Matcher := ⟨.ofTable Registry.presenceTests, none⟩
    ((Call.observeAll (fun n => "#" ++ toString n ++ ":")
      [.check m (.isNamed "defined") .undefined "x", .query m (.notNamed "defined") .undefined,
        .assertion m (.notNamed "any") .null "y", .assertion m (.isNamed "undef") .null "y",
        .check m (.notNamed "undef") .null "z"]).run .empty).2 =
      ⟨3, [⟨.warn, "#0: x expected defined but got [undefined]"⟩,
        ⟨.error, "#2: " ++ (m.registry.unknown "undef").message⟩]⟩ := by
  rfl

end Conform

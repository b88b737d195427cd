import Mathlib.Data.List.Forall2
import Conform.Fixture
import Conform.Proofs.Dispatch
/- What fixtures find. All six ways of asking are put to one harness, and they agree: they refuse the spec, or all find a
   test that fails, or all find none (`Answers`). So the lines of a case and of a value with an expected fault are told by
   these three, one lemma for each. A case passes when it expects what the query answers and says the truth about the
   diagnostic; one that expects the contrary is reported by every way of asking and by both counts of warnings
   (`case_verdict`). Where a fault is expected, a fixture passes when the spec is refused with the given text, by its
   reading or by validation, and all ways of asking report a spec that is valid (`fault_verdict`). -/
namespace Conform

namespace Fixture

/-! ## Lines and how they begin -/

/-- There are as many lines as openings, and each line begins with the opening at its place. -/
def OpenWith (openings lines : List String) : Prop :=
  List.Forall₂ (fun opening line => opening.toList <+: line.toList) openings lines

theorem opens_append (opening rest : String) : opening.toList <+: (opening ++ rest).toList := by
  rw [String.toList_append]
  exact List.prefix_append _ _

theorem lineUnless_eq_nil_iff {condition : Bool} {line : String} :
    lineUnless condition line = [] ↔ condition = true := by
  cases condition <;> simp [lineUnless]

/-! ## What the harness answers -/

/-- The answers to all six ways of asking, and the lines that the check and its negation write. -/
structure Answers where
  queried : Except SpecError Bool
  unqueried : Except SpecError Bool
  required : Except Fault Unit
  refused : Except Fault Unit
  checked : Except SpecError Bool
  unchecked : Except SpecError Bool
  lines : List Line
  negatedLines : List Line

namespace Answers

/-- The answers for a spec at fault. Both checks write it. -/
def refuse (e : SpecError) : Answers :=
  let line : Line := ⟨.error, Check.errorMessage Harness.heading e⟩
  ⟨.error e, .error e, .error (.spec e), .error (.spec e), .error e, .error e, [line], [line]⟩

/-- The answers for a value that does not match, with the diagnostic of the test that failed. -/
def fail (d : Diagnostic) : Answers :=
  ⟨.ok false, .ok true, .error (.assertion d), .ok (), .ok false, .ok true, [⟨.warn, d.message⟩], []⟩

/-- The answers for a value that matches, with the diagnostic of the negated expectation. -/
def hold (d : Diagnostic) : Answers :=
  ⟨.ok true, .ok false, .ok (), .error (.assertion d), .ok true, .ok false, [], [⟨.warn, d.message⟩]⟩

def of (m : Matcher) (s : Spec) (v : Value) : Answers :=
  match m.registry.validate s, m.firstFailure s v with
  | .error e, _ => refuse e
  | .ok _, some o => fail (o.diagnostic Harness.heading "")
  | .ok _, none => hold (.unwanted Harness.heading "" s v)

def texts (level : Level) (lines : List Line) : List String :=
  Journal.texts ⟨0, lines⟩ level

/-- The lines of a case by the answers to its value. -/
def caseLines (c : Case) (a : Answers) : List String :=
  verdictMismatches "query.is" c.expected a.queried ++
    verdictMismatches "query.not" (!c.expected) a.unqueried ++
    assertionMismatches c a.required ++
    negatedAssertionMismatches c a.refused ++
    verdictMismatches "check.is" c.expected a.checked ++
    warningMismatches c (texts .warn a.lines) ++
    verdictMismatches "check.not" (!c.expected) a.unchecked ++
    countMismatches "check.not" (if c.expected then 1 else 0) (texts .warn a.negatedLines)

/-- The lines of a value for which a fault is expected, by the answers to it. -/
def faultLines (expected : String) (a : Answers) : List String :=
  errorMismatches expected "query.is" (forget a.queried) ++
    errorMismatches expected "query.not" (forget a.unqueried) ++
    errorMismatches expected "assert.is" a.required ++
    errorMismatches expected "assert.not" a.refused ++
    errorMismatches expected "check.is" (forget a.checked) ++
    errorMismatches expected "check.not" (forget a.unchecked) ++
    lineUnless ((texts .error (a.lines ++ a.negatedLines)).length = 2)
      ("check: expected 2 sink errors, got " ++ messagesText (texts .error (a.lines ++ a.negatedLines))) ++
    lineUnless (texts .warn (a.lines ++ a.negatedLines)).isEmpty
      ("check: unexpected warnings " ++ messagesText (texts .warn (a.lines ++ a.negatedLines)))

end Answers

theorem mismatches_runCase (f : Fixture) (s : Spec) (c : Case) :
    (f.runCase s c).mismatches = (Answers.of ⟨.numeric, f.expansion⟩ s (.ofJson c.value)).caseLines c := by
  have hrun : (f.runCase s c).mismatches =
      let context := Harness.context f.expansion
      let v := Value.ofJson c.value
      let required := (context.assertion.is s v "").run .empty
      let refused := (context.assertion.not s v "").run required.2
      let checked := (context.check.is s v "").run refused.2
      let unchecked := (context.check.not s v "").run { checked.2 with lines := [] }
      (Answers.mk (context.query.is s v) (context.query.not s v) required.1 refused.1 checked.1 unchecked.1
        checked.2.lines unchecked.2.lines).caseLines c := rfl
  simp only [hrun, Harness.context, Context.make, Query.not, Query.is_eq, Assertion.run_is, Assertion.run_not,
    Check.run_is, Check.run_not, Answers.of]
  cases Registry.numeric.validate s with
  | error e => rfl
  | ok _ => cases (Matcher.mk .numeric f.expansion).firstFailure s (.ofJson c.value) <;> rfl

theorem mismatches_runFault (f : Fixture) (s : Spec) (expected name : String) (v : Value) :
    (f.runFault s expected name v).mismatches = (Answers.of ⟨.numeric, f.expansion⟩ s v).faultLines expected := by
  -- both checks write into one journal, so that the lines of the first stand before those of the second
  have hrun : (f.runFault s expected name v).mismatches =
      let context := Harness.context f.expansion
      let required := (context.assertion.is s v "").run .empty
      let refused := (context.assertion.not s v "").run required.2
      let checked := (context.check.is s v "").run refused.2
      let unchecked := (context.check.not s v "").run checked.2
      (Answers.mk (context.query.is s v) (context.query.not s v) required.1 refused.1 checked.1 unchecked.1
        unchecked.2.lines []).faultLines expected := by
    simp only [Answers.faultLines, List.append_nil]
    rfl
  simp only [hrun, Harness.context, Context.make, Query.not, Query.is_eq, Assertion.run_is, Assertion.run_not,
    Check.run_is, Check.run_not, Answers.of]
  cases Registry.numeric.validate s with
  | error e => rfl
  | ok _ => cases (Matcher.mk .numeric f.expansion).firstFailure s v <;> rfl

/-! ## What a case reports -/

theorem verdictMismatches_eq_nil_iff {way : String} {expected : Bool} {answer : Except SpecError Bool} :
    verdictMismatches way expected answer = [] ↔ answer = .ok expected := by
  rw [verdictMismatches, lineUnless_eq_nil_iff]
  cases answer <;> simp [isVerdict]

theorem verdictMismatches_contrary (way : String) (expected : Bool) :
    verdictMismatches way expected (.ok !expected) =
      [way ++ ": expected Ok(" ++ (Outline.ofBool expected).render ++ "), got " ++ verdictText (.ok !expected)] := by
  cases expected <;> rfl

theorem countMismatches_of_ne (way : String) {n : Nat} {warnings : List String} (h : warnings.length ≠ n) :
    countMismatches way n warnings =
      [way ++ ": expected " ++ toString n ++ " warning(s), got " ++ messagesText warnings] := by
  rw [countMismatches, lineUnless, if_neg (by simpa using h)]

/-- How the lines begin that report that a case expects the contrary of what is the case: one for each way of asking and
    one for the warnings of the check and of its negation. -/
def contraryOpenings (expected : Bool) : List String :=
  let verdict := fun (way : String) (b : Bool) =>
    way ++ ": expected Ok(" ++ (Outline.ofBool b).render ++ "), got " ++ verdictText (.ok !b)
  let warnings := fun (way : String) (n : Nat) => way ++ ": expected " ++ toString n ++ " warning(s), got "
  [verdict "query.is" expected, verdict "query.not" !expected, "assert.is: unexpected ", "assert.not: unexpected ",
    verdict "check.is" expected, warnings "check.is" (if expected then 0 else 1),
    verdict "check.not" !expected, warnings "check.not" (if expected then 1 else 0)]

theorem openWith_contrary (expected : Bool) (required refused : Except Fault Unit)
    (warnings negatedWarnings : List String) (hwarnings : warnings.length ≠ if expected then 0 else 1)
    (hnegated : negatedWarnings.length ≠ if expected then 1 else 0) :
    OpenWith (contraryOpenings expected)
      (verdictMismatches "query.is" expected (.ok !expected) ++ verdictMismatches "query.not" (!expected) (.ok expected) ++
        ["assert.is: unexpected " ++ faultText required] ++ ["assert.not: unexpected " ++ faultText refused] ++
        verdictMismatches "check.is" expected (.ok !expected) ++
        countMismatches "check.is" (if expected then 0 else 1) warnings ++
        verdictMismatches "check.not" (!expected) (.ok expected) ++
        countMismatches "check.not" (if expected then 1 else 0) negatedWarnings) := by
  have hnot := fun way => verdictMismatches_contrary way !expected
  simp only [Bool.not_not] at hnot
  rw [verdictMismatches_contrary, hnot, verdictMismatches_contrary, hnot, countMismatches_of_ne _ hwarnings,
    countMismatches_of_ne _ hnegated]
  simp only [contraryOpenings, Bool.not_not]
  refine .cons (List.prefix_refl _) (.cons (List.prefix_refl _) (.cons (opens_append _ _) (.cons (opens_append _ _) ?_)))
  exact .cons (List.prefix_refl _) (.cons (opens_append _ _) (.cons (List.prefix_refl _) (.cons (opens_append _ _) .nil)))

theorem diagnosticMismatches_eq_nil_iff {c : Case} {d : Diagnostic} :
    diagnosticMismatches c d = [] ↔
      (∀ message, c.message = some message → message.toList <:+: d.message.toList) ∧
        ∀ path, c.path = some path → d.path.dotted = path := by
  rw [diagnosticMismatches, List.append_eq_nil_iff]
  refine and_congr ?_ ?_
  · cases c.message with
    | none => simp
    | some message => simp [lineUnless_eq_nil_iff, Text.occurs_iff]
  · cases c.path with
    | none => simp
    | some path => simp [lineUnless_eq_nil_iff]

namespace Answers
variable {c : Case} {d : Diagnostic} {e : SpecError}

/-- A spec at fault lets every case fail, whatever it expects. -/
theorem caseLines_refuse_ne_nil : (refuse e).caseLines c ≠ [] := by
  have hquery : verdictMismatches "query.is" c.expected (.error e) ≠ [] := by
    rw [Ne, verdictMismatches_eq_nil_iff]
    exact nofun
  simp only [caseLines, refuse, ne_eq, List.append_eq_nil_iff, hquery, false_and, not_false_eq_true]

theorem caseLines_hold_eq_nil (hc : c.expected = true) (hd : isNegated d.expected = true) :
    (hold d).caseLines c = [] := by
  have hquery : ∀ way, verdictMismatches way true (.ok true) = [] := fun _ => verdictMismatches_eq_nil_iff.2 rfl
  have hnegated : ∀ way, verdictMismatches way false (.ok false) = [] := fun _ => verdictMismatches_eq_nil_iff.2 rfl
  simp [caseLines, hold, hc, hquery, hnegated, assertionMismatches, negatedAssertionMismatches, hd, lineUnless,
    warningMismatches, countMismatches, texts, Journal.texts]

theorem caseLines_hold_openWith (hc : c.expected = false) :
    OpenWith (contraryOpenings c.expected) ((hold d).caseLines c) := by
  have hopen := openWith_contrary false (.ok ()) (.error (.assertion d)) [] [d.message] Nat.zero_ne_one Nat.one_ne_zero
  simpa [caseLines, hold, hc, assertionMismatches, negatedAssertionMismatches, warningMismatches, texts,
    Journal.texts] using hopen

theorem caseLines_fail_openWith (hc : c.expected = true) :
    OpenWith (contraryOpenings c.expected) ((fail d).caseLines c) := by
  have hopen := openWith_contrary true (.error (.assertion d)) (.ok ()) [d.message] [] Nat.one_ne_zero Nat.zero_ne_one
  simpa [caseLines, fail, hc, assertionMismatches, negatedAssertionMismatches, warningMismatches, texts,
    Journal.texts] using hopen

/-- The warning has the text of the diagnostic, so that a message that stands in one stands in the other. -/
theorem caseLines_fail_eq_nil_iff (hc : c.expected = false) :
    (fail d).caseLines c = [] ↔ diagnosticMismatches c d = [] := by
  have hquery : ∀ way, verdictMismatches way false (.ok false) = [] := fun _ => verdictMismatches_eq_nil_iff.2 rfl
  have hnegated : ∀ way, verdictMismatches way true (.ok true) = [] := fun _ => verdictMismatches_eq_nil_iff.2 rfl
  have hlines : (fail d).caseLines c = diagnosticMismatches c d ++ warningMismatches c [d.message] := by
    simp [caseLines, fail, hc, hquery, hnegated, assertionMismatches, negatedAssertionMismatches, countMismatches,
      lineUnless, texts, Journal.texts]
  have hwarning : diagnosticMismatches c d = [] → warningMismatches c [d.message] = [] := by
    intro hd
    have hmessage := (diagnosticMismatches_eq_nil_iff.1 hd).1
    cases hcase : c.message with
    | none => simp [warningMismatches, hc, hcase]
    | some message => simp [warningMismatches, hc, hcase, lineUnless_eq_nil_iff, Text.occurs_iff, hmessage message hcase]
  rw [hlines, List.append_eq_nil_iff]
  exact ⟨And.left, fun hd => ⟨hd, hwarning hd⟩⟩

end Answers

/-! ## What is reported where a fault is expected -/

theorem errorMismatches_spec_eq_nil_iff {expected way : String} {e : SpecError} :
    errorMismatches expected way (.error (.spec e)) = [] ↔ expected.toList <:+: e.message.toList := by
  rw [errorMismatches, lineUnless_eq_nil_iff, isExpectedError, Text.occurs_iff]

theorem errorMismatches_of_not_spec (expected way : String) {answer : Except Fault Unit}
    (h : ∀ e, answer ≠ .error (.spec e)) :
    errorMismatches expected way answer =
      [way ++ ": expected error containing " ++ Outline.quote expected ++ ", got " ++ faultText answer] := by
  have hanswer : isExpectedError expected answer = false := by
    unfold isExpectedError
    split
    · next e => exact absurd rfl (h e)
    · rfl
  rw [errorMismatches, hanswer, lineUnless, if_neg Bool.false_ne_true]

/-- How the lines begin that report that a fault was expected and none came: one for each way of asking, one for the
    errors that were not written and one for the warning that was. -/
def faultOpenings (expected : String) : List String :=
  let missing := fun (way : String) => way ++ ": expected error containing " ++ Outline.quote expected ++ ", got "
  [missing "query.is", missing "query.not", missing "assert.is", missing "assert.not", missing "check.is",
    missing "check.not", "check: expected 2 sink errors, got ", "check: unexpected warnings "]

/-- Where no answer is a fault of the spec and a warning was written, every line is there. -/
theorem openWith_missing (expected : String) (answer answer' : Bool) (required refused : Except Fault Unit)
    (warnings : List String) (hrequired : ∀ e, required ≠ .error (.spec e)) (hrefused : ∀ e, refused ≠ .error (.spec e)) :
    OpenWith (faultOpenings expected)
      (errorMismatches expected "query.is" (forget (.ok answer)) ++
        errorMismatches expected "query.not" (forget (.ok answer')) ++
        errorMismatches expected "assert.is" required ++ errorMismatches expected "assert.not" refused ++
        errorMismatches expected "check.is" (forget (.ok answer)) ++
        errorMismatches expected "check.not" (forget (.ok answer')) ++
        ["check: expected 2 sink errors, got " ++ messagesText []] ++
        ["check: unexpected warnings " ++ messagesText warnings]) := by
  have hanswer : ∀ way b, errorMismatches expected way (forget (.ok b)) = _ := fun way b =>
    errorMismatches_of_not_spec expected way nofun
  rw [hanswer, hanswer, hanswer, hanswer, errorMismatches_of_not_spec _ _ hrequired,
    errorMismatches_of_not_spec _ _ hrefused]
  refine .cons (opens_append _ _) (.cons (opens_append _ _) (.cons (opens_append _ _) (.cons (opens_append _ _) ?_)))
  exact .cons (opens_append _ _) (.cons (opens_append _ _) (.cons (opens_append _ _) (.cons (opens_append _ _) .nil)))

namespace Answers
variable {expected : String} {d : Diagnostic} {e : SpecError}

/-- All ways of asking end with the fault and each check writes it once, so that its text alone counts. -/
theorem faultLines_refuse_eq_nil_iff :
    (refuse e).faultLines expected = [] ↔ expected.toList <:+: e.message.toList := by
  simp [faultLines, refuse, forget, errorMismatches_spec_eq_nil_iff, lineUnless_eq_nil_iff, texts, Journal.texts]

theorem faultLines_hold_openWith : OpenWith (faultOpenings expected) ((hold d).faultLines expected) :=
  openWith_missing expected true false (.ok ()) (.error (.assertion d)) [d.message] nofun nofun

theorem faultLines_fail_openWith : OpenWith (faultOpenings expected) ((fail d).faultLines expected) :=
  openWith_missing expected false true (.error (.assertion d)) (.ok ()) [d.message] nofun nofun

end Answers

end Fixture

/-! ## The verdict on a case -/

/-- What a case says of a spec is the truth: the value matches as expected, and if it does not match, the diagnostic has
    the message and the place that the case asks for. -/
structure Case.TrueOf (m : Matcher) (s : Spec) (c : Case) : Prop where
  verdict : (Query.mk m).is s (.ofJson c.value) = .ok c.expected
  diagnostic : c.expected = false → ∃ d,
    (((Assertion.mk m (.fixed "Fixture:")).is s (.ofJson c.value) "").run .empty).1 = .error (.assertion d) ∧
      (∀ message, c.message = some message → message.toList <:+: d.message.toList) ∧
      ∀ path, c.path = some path → d.path.dotted = path

namespace Fixture

theorem isNegated_unwanted (heading description : String) (s : Spec) (v : Value) :
    isNegated (Diagnostic.unwanted heading description s v).expected = true :=
  List.isPrefixOf_iff_prefix.2 (opens_append "not " s.label)

/-- The spec is at fault, or it is valid and the value does not match, or it is valid and the value matches; what the
    query answers tells which. -/
theorem Answers.of_cases (m : Matcher) (s : Spec) (v : Value) :
    (∃ e, m.registry.validate s = .error e ∧ (Query.mk m).is s v = .error e ∧ Answers.of m s v = .refuse e) ∨
    m.registry.validate s = .ok () ∧
      ((∃ d, (Query.mk m).is s v = .ok false ∧ Answers.of m s v = .fail d ∧
        (((Assertion.mk m (.fixed "Fixture:")).is s v "").run .empty).1 = .error (.assertion d)) ∨
      ∃ d, (Query.mk m).is s v = .ok true ∧ Answers.of m s v = .hold d ∧ isNegated d.expected = true) := by
  rw [Answers.of, Query.is_eq, Assertion.run_is]
  cases m.registry.validate s with
  | error e => exact .inl ⟨e, rfl, rfl, rfl⟩
  | ok _ =>
    refine .inr ⟨rfl, ?_⟩
    cases m.firstFailure s v with
    | some o => exact .inl ⟨_, rfl, rfl, rfl⟩
    | none => exact .inr ⟨_, rfl, rfl, isNegated_unwanted _ _ s v⟩

theorem caseLines_of_contrary {m : Matcher} {s : Spec} {c : Case} {matched : Bool}
    (h : (Query.mk m).is s (.ofJson c.value) = .ok matched) (hne : matched ≠ c.expected) :
    OpenWith (contraryOpenings c.expected) ((Answers.of m s (.ofJson c.value)).caseLines c) := by
  rcases Answers.of_cases m s (.ofJson c.value) with
    ⟨e, -, his, -⟩ | ⟨-, ⟨d, his, hof, -⟩ | ⟨d, his, hof, -⟩⟩ <;> rw [his] at h <;> cases h <;> rw [hof]
  · exact Answers.caseLines_fail_openWith (eq_true_of_ne_false hne.symm)
  · exact Answers.caseLines_hold_openWith (eq_false_of_ne_true hne.symm)

/-- There is nothing to report of a case exactly when it says the truth. -/
theorem caseLines_of_eq_nil_iff (m : Matcher) (s : Spec) (c : Case) :
    (Answers.of m s (.ofJson c.value)).caseLines c = [] ↔ c.TrueOf m s := by
  -- whether there are lines or not, the query answers what the case expects
  by_cases hverdict : (Query.mk m).is s (.ofJson c.value) = .ok c.expected
  · rcases Answers.of_cases m s (.ofJson c.value) with
      ⟨e, -, his, -⟩ | ⟨-, ⟨d, his, hof, hassertion⟩ | ⟨d, his, hof, hd⟩⟩ <;> rw [his] at hverdict
    · cases hverdict
    · have hc : c.expected = false := (Except.ok.inj hverdict).symm
      rw [hof, Answers.caseLines_fail_eq_nil_iff hc, diagnosticMismatches_eq_nil_iff]
      constructor
      · exact fun h => ⟨his.trans hverdict, fun _ => ⟨d, hassertion, h⟩⟩
      · intro h
        obtain ⟨d', hd', hasked⟩ := h.diagnostic hc
        rw [hassertion] at hd'
        cases hd'
        exact hasked
    · have hc : c.expected = true := (Except.ok.inj hverdict).symm
      rw [hof]
      refine iff_of_true (Answers.caseLines_hold_eq_nil hc hd) ⟨his.trans hverdict, fun h => ?_⟩
      rw [hc] at h
      cases h
  · refine iff_of_false (fun hnil => ?_) fun h => hverdict h.verdict
    rcases Answers.of_cases m s (.ofJson c.value) with ⟨e, -, -, hof⟩ | ⟨-, ⟨d, his, -, -⟩ | ⟨d, his, -, -⟩⟩
    · rw [hof] at hnil
      exact Answers.caseLines_refuse_ne_nil hnil
    all_goals
      have hlines := caseLines_of_contrary his fun h => hverdict (h ▸ his)
      rw [hnil] at hlines
      cases hlines

theorem length_of_openWith {openings lines : List String} (h : OpenWith openings lines) :
    lines.length = openings.length :=
  (List.Forall₂.length_eq h).symm

theorem passed_iff {r : CaseResult} : r.passed = true ↔ r.mismatches = [] :=
  List.isEmpty_iff

/-- A case of a fixture whose spec can be read passes exactly when it says the truth. If the query answers the contrary of
    what it expects, there are eight lines, one for each way of asking and one for each count of warnings; if validation
    refuses the spec, it does not pass. -/
theorem case_verdict (f : Fixture) (s : Spec) (herror : f.error = none) (hs : Spec.ofJson f.spec = .ok s) :
    f.run = f.cases.map (f.runCase s) ∧ ∀ c : Case,
      ((f.runCase s c).passed = true ↔ c.TrueOf ⟨.numeric, f.expansion⟩ s) ∧
      (∀ matched, (Query.mk ⟨.numeric, f.expansion⟩).is s (.ofJson c.value) = .ok matched → matched ≠ c.expected →
        (f.runCase s c).mismatches.length = 8 ∧ OpenWith (contraryOpenings c.expected) (f.runCase s c).mismatches) ∧
      (∀ e, Registry.numeric.validate s = .error e → (f.runCase s c).passed = false) := by
  refine ⟨by simp only [run, herror, hs], fun c => ⟨?_, ?_, ?_⟩⟩
  · rw [passed_iff, mismatches_runCase, caseLines_of_eq_nil_iff]
  · intro matched his hne
    have hlines := caseLines_of_contrary his hne
    rw [mismatches_runCase]
    exact ⟨length_of_openWith hlines, hlines⟩
  · intro e he
    rw [Bool.eq_false_iff, Ne, passed_iff, mismatches_runCase, caseLines_of_eq_nil_iff]
    intro h
    have his := (Query.mk ⟨.numeric, f.expansion⟩).is_eq s (.ofJson c.value)
    rw [h.verdict, he] at his
    cases his

/-- A field that is null is expected not to match, and the case says where and how; another case expects that it matches.
    A name without a test lets a case fail. -/
theorem case_verdict_record :
    let f : Fixture := ⟨"name", "", .object [("a.b", .string "string")], none, none, []⟩
    let s : Spec := .shape [("a.b", .leaf "string")]
    let value : Json := .object [("a.b", .null)]
    (f.runCase s ⟨"null", value, false, some "a.b expected string but got [null]", some "a.b"⟩).passed = true ∧
      (f.runCase s ⟨"null", value, true, none, none⟩).mismatches.length = 8 ∧
      ({ f with spec := .string "text" }.runCase (.leaf "text") ⟨"unknown", value, false, none, none⟩).passed = false := by
  intro f s value
  have hcases := (case_verdict f s rfl rfl).2
  refine ⟨(hcases _).1.2 ⟨rfl, fun _ => ⟨_, rfl, ?_, ?_⟩⟩, ?_, ?_⟩
  · rintro _ ⟨⟩
    show _ <:+: "Fixture: a.b expected string but got [null]".toList
    exact Text.occurs_iff.1 (by decide)
  · rintro _ ⟨⟩
    rfl
  · exact ((hcases _).2.1 false rfl Bool.false_ne_true).1
  · exact ((case_verdict { f with spec := .string "text" } (.leaf "text") rfl rfl).2 _).2.2 _ rfl

/-! ## The verdict where a fault is expected -/

theorem faultLines_of_valid {m : Matcher} {s : Spec} (h : m.registry.validate s = .ok ()) (v : Value) (text : String) :
    OpenWith (faultOpenings text) ((Answers.of m s v).faultLines text) := by
  rcases Answers.of_cases m s v with ⟨e, he, -⟩ | ⟨-, ⟨d, -, hof, -⟩ | ⟨d, -, hof, -⟩⟩
  · rw [h] at he
    cases he
  · rw [hof]
    exact Answers.faultLines_fail_openWith
  · rw [hof]
    exact Answers.faultLines_hold_openWith

/-- There is nothing to report exactly when validation refuses the spec with the text. The value does not count. -/
theorem faultLines_of_eq_nil_iff {m : Matcher} {s : Spec} {v : Value} {text : String} :
    (Answers.of m s v).faultLines text = [] ↔
      ∃ e, m.registry.validate s = .error e ∧ text.toList <:+: e.message.toList := by
  rcases Answers.of_cases m s v with ⟨e, he, -, hof⟩ | ⟨hvalid, -⟩
  · rw [hof, Answers.faultLines_refuse_eq_nil_iff, he]
    simp
  · refine iff_of_false (fun hnil => ?_) fun ⟨e, he, _⟩ => ?_
    · have hlines := faultLines_of_valid hvalid v text
      rw [hnil] at hlines
      cases hlines
    · rw [hvalid] at he
      cases he

theorem passed_runFault_iff {f : Fixture} {s : Spec} {text name : String} {v : Value} :
    (f.runFault s text name v).passed = true ↔
      ∃ e, Registry.numeric.validate s = .error e ∧ text.toList <:+: e.message.toList := by
  rw [passed_iff, mismatches_runFault, faultLines_of_eq_nil_iff]

theorem probes_ne_nil (f : Fixture) : f.probes ≠ [] := by
  rw [probes]
  cases f.cases with
  | nil => exact List.cons_ne_nil _ _
  | cons c rest => exact List.cons_ne_nil _ _

theorem map_fst_probes (f : Fixture) :
    f.probes.map Prod.fst = if f.cases = [] then ["(null)"] else f.cases.map Case.name := by
  rw [probes]
  cases f.cases with
  | nil => rfl
  | cons c rest =>
    rw [if_neg (List.cons_ne_nil c rest), List.isEmpty_cons, if_neg Bool.false_ne_true, List.map_map]
    rfl

theorem run_eq_map_probes {f : Fixture} {text : String} {s : Spec} (herror : f.error = some text)
    (hspec : Spec.ofJson f.spec = .ok s) :
    f.run = f.probes.map fun probe => f.runFault s text probe.1 probe.2 := by
  simp only [run, herror, hspec]

/-- A fixture with an error passes when the spec is refused with its text, by its reading or by validation. -/
theorem all_passed_iff {f : Fixture} {text : String} (herror : f.error = some text) :
    (∀ r ∈ f.run, r.passed = true) ↔
      (∃ e, Spec.ofJson f.spec = .error e ∧ text.toList <:+: e.message.toList) ∨
      ∃ s e, Spec.ofJson f.spec = .ok s ∧ Registry.numeric.validate s = .error e ∧
        text.toList <:+: e.message.toList := by
  cases hspec : Spec.ofJson f.spec with
  | error e => simp [run, herror, hspec, passed_iff, lineUnless_eq_nil_iff, Text.occurs_iff]
  | ok s =>
    -- there is a value in any case, and what it passes for does not depend on it
    rw [run_eq_map_probes herror hspec, List.forall_mem_map]
    obtain ⟨probe, rest, hprobes⟩ := List.exists_cons_of_ne_nil f.probes_ne_nil
    constructor
    · intro h
      have hprobe := h probe (by rw [hprobes]; exact List.mem_cons_self)
      obtain ⟨e, he⟩ := passed_runFault_iff.1 hprobe
      exact .inr ⟨s, e, rfl, he⟩
    · rintro (⟨e, he, -⟩ | ⟨_, e, ⟨⟩, he⟩)
      · cases he
      · exact fun probe _ => passed_runFault_iff.2 ⟨e, he⟩

/-- Where a fault is expected, all results pass exactly when the spec is refused with the given text, by its reading or by
    validation; the options and the cases do not count. For a valid spec every result has eight lines, one for each way
    of asking, one for the errors that are missing and one for the warning. The results are those of the cases in turn;
    without cases there is one for null, and one for a spec that cannot be read. -/
theorem fault_verdict (f : Fixture) (text : String) (herror : f.error = some text) :
    ((∀ r ∈ f.run, r.passed = true) ↔
      (∃ e, Spec.ofJson f.spec = .error e ∧ text.toList <:+: e.message.toList) ∨
      ∃ s e, Spec.ofJson f.spec = .ok s ∧ Registry.numeric.validate s = .error e ∧
        text.toList <:+: e.message.toList) ∧
    (∀ expansion cases, (∀ r ∈ { f with expansion, cases }.run, r.passed = true) ↔ ∀ r ∈ f.run, r.passed = true) ∧
    (∀ s, Spec.ofJson f.spec = .ok s → Registry.numeric.validate s = .ok () → ∀ r ∈ f.run,
      r.passed = false ∧ r.mismatches.length = 8 ∧ OpenWith (faultOpenings text) r.mismatches) ∧
    f.run.map CaseResult.name =
      match Spec.ofJson f.spec with
      | .error _ => ["(parse)"]
      | .ok _ => if f.cases = [] then ["(null)"] else f.cases.map Case.name := by
  refine ⟨all_passed_iff herror, fun expansion cases => ?_, fun s hspec hvalid => ?_, ?_⟩
  · have hother : { f with expansion, cases }.error = some text := herror
    rw [all_passed_iff herror, all_passed_iff hother]
  · rw [run_eq_map_probes herror hspec, List.forall_mem_map]
    intro probe _
    have hlines := faultLines_of_valid (m := ⟨.numeric, f.expansion⟩) hvalid probe.2 text
    rw [← mismatches_runFault f s text probe.1 probe.2] at hlines
    have hlength := length_of_openWith hlines
    refine ⟨?_, hlength, hlines⟩
    rw [Bool.eq_false_iff, Ne, passed_iff]
    intro hnil
    rw [hnil] at hlength
    cases hlength
  · cases hspec : Spec.ofJson f.spec with
    | error e => simp only [run, herror, hspec, readingName, List.map_cons, List.map_nil]
    | ok s =>
      rw [run_eq_map_probes herror hspec, List.map_map]
      exact f.map_fst_probes

/-- A name without a test is refused, a list without a spec cannot be read, and a valid spec is reported for null. -/
theorem fault_verdict_unknown :
    let f : Fixture := ⟨"faults", "", .array [.string "text"], some .deep, some "unknown type \"text\" — ", []⟩
    let g : Fixture := { f with spec := .array [], error := some "empty type spec", cases := [⟨"x", .null, true, none, none⟩] }
    let h : Fixture := { f with spec := .string "string" }
    (∀ r ∈ f.run, r.passed = true) ∧ (∀ r ∈ g.run, r.passed = true) ∧ g.run.map CaseResult.name = ["(parse)"] ∧
      ∀ r ∈ h.run, r.mismatches.length = 8 := by
  intro f g h
  refine ⟨(fault_verdict f _ rfl).1.2 (.inr ⟨_, _, rfl, rfl, ?_⟩), ?_, (fault_verdict g _ rfl).2.2.2, ?_⟩
  · exact (opens_append "unknown type \"text\" — " _).isInfix
  · exact (fault_verdict g _ rfl).1.2 (.inl ⟨_, rfl, Text.occurs_iff.1 (by decide)⟩)
  · exact fun r hr => ((fault_verdict h _ rfl).2.2.1 _ rfl rfl r hr).2.1

end Fixture

end Conform

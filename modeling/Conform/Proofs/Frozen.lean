import Mathlib.Logic.Function.Basic
import Conform.Session
import Conform.Proofs.Emission
/- Contexts are frozen. Contexts are built, built anew, copied and asked while hosts change, in any order. A chronicle
   notes for every name the host as it is and the scope for which the context was built, with the host as it was then.
   A session keeps up with its chronicle (`Tracks`): the context of a name is the one that the installer builds for the
   noted scope. So, by induction on the moves, every question is answered as by a context that was just built for that
   scope, and its messages open with the label that the host had when the context was built (`contexts_frozen`). -/
namespace Conform

variable {H : Type}

/-! ## What messages open with -/

namespace Labels

/-- The label of a scope: that of the host, where there is a rule for it and the host has one. -/
def labelOf (l : Labels H) : Scope H → Option String
  | .type => none
  | .host h => l.instanceLabel.bind fun label => label h

/-- What messages for a scope open with. -/
def opening (l : Labels H) (scope : Scope H) : String :=
  match l.labelOf scope with
  | some label => l.classLabel ++ "(" ++ label ++ "): "
  | none => l.classLabel ++ ": "

end Labels

namespace Installer
variable (i : Installer H) (scope : Scope H)

theorem heading_append_blank : i.heading scope ++ " " = i.labels.opening scope := by
  have htype : i.labels.classHeading ++ " " = i.labels.classLabel ++ ": " := String.append_assoc
  cases scope with
  | type => exact htype
  | host h =>
    rw [heading, Labels.instanceHeading, Labels.opening, Labels.labelOf]
    cases i.labels.instanceLabel.bind fun label => label h with
    | none => exact htype
    | some label => exact String.append_assoc

theorem heading_ne_empty : i.heading scope ≠ "" := by
  have htype : i.labels.classHeading ≠ "" := fun h => absurd (String.append_eq_empty_iff.1 h).2 (by decide)
  cases scope with
  | type => exact htype
  | host h =>
    rw [heading, Labels.instanceHeading]
    cases i.labels.instanceLabel.bind fun label => label h with
    | none => exact htype
    | some label => exact fun h => absurd (String.append_eq_empty_iff.1 h).2 (by decide)

end Installer

theorem Diagnostic.message_eq {d : Diagnostic} (h : d.heading ≠ "") : ∃ rest, d.message = d.heading ++ " " ++ rest := by
  simp only [message, failureMessage, String.isEmpty_eq_false_iff.2 h, Bool.false_eq_true, if_false, String.append_assoc]
  exact ⟨_, rfl⟩

theorem Check.errorMessage_eq {heading : String} (h : heading ≠ "") (e : SpecError) :
    errorMessage heading e = heading ++ " " ++ e.message := by
  rw [errorMessage, String.isEmpty_eq_false_iff.2 h, if_neg Bool.false_ne_true]

/-! ## Contexts that say the same at any time -/

/-- The action gives the same from any journal and writes the same lines behind those that are there. -/
def Journaled.Uniform {α : Type} (action : Journaled α) : Prop :=
  ∀ j, (action.run j).1 = (action.run .empty).1 ∧ (action.run j).2.lines = j.lines ++ (action.run .empty).2.lines

section
variable {text : String} (s : Spec) (v : Value) (description : String)

theorem Journaled.uniform_pure {α : Type} (a : α) : Uniform (pure a : Journaled α) :=
  fun j => ⟨rfl, (List.append_nil j.lines).symm⟩

theorem Check.lines_said {c : Check} (hc : c.heading = .fixed text) (j : Journal) (level : Level) (f : String → String) :
    (c.said j level f).lines = j.lines ++ (c.said .empty level f).lines := by
  simp only [said, hc, Heading.fixed, Journal.add]
  cases c.sink.keeps level with
  | false => exact (List.append_nil j.lines).symm
  | true => rfl

theorem Assertion.uniform_is {a : Assertion} (ha : a.heading = .fixed text) :
    Journaled.Uniform (a.is s v description) := by
  intro j
  rw [run_is, run_is, ha]
  cases a.matcher.registry.validate s with
  | error e => exact ⟨rfl, (List.append_nil j.lines).symm⟩
  | ok _ => cases a.matcher.firstFailure s v <;> exact ⟨rfl, (List.append_nil j.lines).symm⟩

theorem Assertion.uniform_not {a : Assertion} (ha : a.heading = .fixed text) :
    Journaled.Uniform (a.not s v description) := by
  intro j
  rw [run_not, run_not, ha]
  cases a.matcher.registry.validate s with
  | error e => exact ⟨rfl, (List.append_nil j.lines).symm⟩
  | ok _ => cases a.matcher.firstFailure s v <;> exact ⟨rfl, (List.append_nil j.lines).symm⟩

theorem Check.uniform_is {c : Check} (hc : c.heading = .fixed text) :
    Journaled.Uniform (c.is s v description) := by
  intro j
  rw [run_is, run_is]
  cases c.matcher.registry.validate s with
  | error e => exact ⟨rfl, lines_said hc j _ _⟩
  | ok _ =>
    cases c.matcher.firstFailure s v with
    | none => exact ⟨rfl, (List.append_nil j.lines).symm⟩
    | some o => exact ⟨rfl, lines_said hc j _ _⟩

theorem Check.uniform_not {c : Check} (hc : c.heading = .fixed text) :
    Journaled.Uniform (c.not s v description) := by
  intro j
  rw [run_not, run_not]
  cases c.matcher.registry.validate s with
  | error e => exact ⟨rfl, lines_said hc j _ _⟩
  | ok _ =>
    cases c.matcher.firstFailure s v with
    | none => exact ⟨rfl, lines_said hc j _ _⟩
    | some o => exact ⟨rfl, (List.append_nil j.lines).symm⟩

theorem Assertion.uniform_meets {a : Assertion} (ha : a.heading = .fixed text) (e : Expectation) :
    Journaled.Uniform (a.meets v description e) := by
  cases e with
  | is s => exact uniform_is s v description ha
  | not s => exact uniform_not s v description ha
  | isNamed name => exact uniform_is (.leaf name) v description ha
  | notNamed name => exact uniform_not (.leaf name) v description ha

theorem Check.uniform_meets {c : Check} (hc : c.heading = .fixed text) (e : Expectation) :
    Journaled.Uniform (c.meets v description e) := by
  cases e with
  | is s => exact uniform_is s v description hc
  | not s => exact uniform_not s v description hc
  | isNamed name => exact uniform_is (.leaf name) v description hc
  | notNamed name => exact uniform_not (.leaf name) v description hc

end

/-! ## Questions -/

/-- What is asked of a context. -/
inductive Question where
  | query (e : Expectation) (v : Value)
  | trace (s : Spec) (v : Value)
  | assertion (e : Expectation) (v : Value) (description : String)
  | check (e : Expectation) (v : Value) (description : String)

def Question.ask (q : Question) (c : Context) : Journaled Answer :=
  match q with
  | query e v => return .query (c.query.meets v e)
  | trace s v => return .trace (c.query.trace s v)
  | assertion e v description => return .assertion (← c.assertion.meets v description e)
  | check e v description => return .check (← c.check.meets v description e)

def Answer.diagnostic? : Answer → Option Diagnostic
  | .assertion (.error fault) => fault.diagnostic?
  | _ => none

/-- What is seen from outside: an answer, if there was a question, and the lines that were written. -/
structure Reply where
  answer : Option Answer
  lines : List Line

/-- The messages of a reply: that of a failed assertion, and the lines. -/
def Reply.messages (r : Reply) : List String :=
  (r.answer.bind Answer.diagnostic?).toList.map Diagnostic.message ++ r.lines.map Line.text

/-- What is seen if the context is asked before anything else is. -/
def Question.replyOf (q : Question) (c : Context) : Reply :=
  let (answer, journal) := (q.ask c).run .empty
  ⟨some answer, journal.lines⟩

theorem Assertion.Accounts.opens {a : Assertion} {result : Except Fault Unit × Journal} (h : a.Accounts .empty result)
    (hheading : a.heading 0 ≠ "") :
    ∀ text ∈ (Reply.mk (some (.assertion result.1)) result.2.lines).messages,
      ∃ rest, text = a.heading 0 ++ " " ++ rest := by
  obtain ⟨(e | d) | _, j⟩ := result
  · obtain rfl : j = .empty := h
    exact fun text htext => absurd htext List.not_mem_nil
  · obtain ⟨hd, rfl⟩ := h
    replace hd : d.heading = a.heading 0 := hd
    intro text htext
    obtain rfl := List.mem_singleton.1 htext
    rw [← hd] at hheading ⊢
    exact Diagnostic.message_eq hheading
  · obtain rfl : j = .empty := h
    exact fun text htext => absurd htext List.not_mem_nil

theorem Check.Accounts.opens {c : Check} {result : Except SpecError Bool × Journal} (h : c.Accounts .empty result)
    (hheading : c.heading 0 ≠ "") :
    ∀ text ∈ (Reply.mk (some (.check result.1)) result.2.lines).messages,
      ∃ rest, text = c.heading 0 ++ " " ++ rest := by
  have hline : ∀ (line : Line), (∃ rest, line.text = c.heading 0 ++ " " ++ rest) →
      ∀ text ∈ (Reply.mk (some (.check result.1)) (Journal.empty.withHeading.add c.sink line).lines).messages,
        ∃ rest, text = c.heading 0 ++ " " ++ rest := by
    intro line hrest text htext
    rw [Journal.add] at htext
    split at htext
    · obtain rfl := List.mem_singleton.1 htext
      exact hrest
    · cases htext
  obtain ⟨e | b, j⟩ := result
  · obtain rfl : j = _ := h
    exact hline _ ⟨e.message, errorMessage_eq hheading e⟩
  · cases b with
    | false =>
      obtain ⟨d, hd, rfl⟩ := h
      replace hd : d.heading = c.heading 0 := hd
      refine hline _ ?_
      rw [← hd] at hheading ⊢
      exact Diagnostic.message_eq hheading
    | true =>
      obtain rfl : j = .empty := h
      exact fun text htext => absurd htext List.not_mem_nil

namespace Question
variable (q : Question) (i : Installer H) (scope : Scope H)

theorem uniform_ask : Journaled.Uniform (q.ask (i.context scope)) := by
  intro j
  cases q with
  | query e v => exact Journaled.uniform_pure _ j
  | trace s v => exact Journaled.uniform_pure _ j
  | assertion e v description =>
    have h := Assertion.uniform_meets (a := (i.context scope).assertion) v description rfl e j
    exact ⟨congrArg Answer.assertion h.1, h.2⟩
  | check e v description =>
    have h := Check.uniform_meets (c := (i.context scope).check) v description rfl e j
    exact ⟨congrArg Answer.check h.1, h.2⟩

theorem opens_replyOf : ∀ text ∈ (q.replyOf (i.context scope)).messages,
    ∃ rest, text = i.labels.opening scope ++ rest := by
  rw [← i.heading_append_blank]
  have hheading := i.heading_ne_empty scope
  cases q with
  | query e v => exact fun text htext => absurd htext List.not_mem_nil
  | trace s v => exact fun text htext => absurd htext List.not_mem_nil
  | assertion e v description =>
    exact (Assertion.accounts_meets (i.context scope).assertion v description .empty e).opens hheading
  | check e v description =>
    exact (Check.accounts_meets (i.context scope).check v description .empty e).opens hheading

end Question

/-! ## Moves and their chronicle -/

/-- What can be done in a session: with a host, with contexts, or by asking a context. -/
inductive Move (H : Type) where
  | create (name : String) (h : H)
  | change (name : String) (f : H → H)
  | installType (name : String)
  | installHost (name : String)
  | installApart (name target : String)
  | copy (name target : String)
  | ask (name : String) (q : Question)

namespace Move

/-- Makes a move. Only a question is answered. -/
def make : Move H → Session.ActionOf H (Option Answer)
  | create name h => do
    Session.setHost name h
    return none
  | change name f => do
    Session.change name f
    return none
  | installType name => do
    let _ ← Session.installType name
    return none
  | installHost name => do
    let _ ← Session.installHost name
    return none
  | installApart name target => do
    let _ ← Session.installApart name target
    return none
  | copy name target => do
    Session.copy name target
    return none
  | ask name q => some <$> Session.use name q.ask

def perform (m : Move H) : Session.ActionOf H Reply := do
  let (answer, lines) ← Session.observed m.make
  return ⟨answer, lines⟩

def performAll (moves : List (Move H)) : Session.ActionOf H (List Reply) :=
  moves.mapM perform

/-- The name under which the move stores a context. -/
def stores? : Move H → Option String
  | installType name | installHost name => some name
  | installApart _ target | copy _ target => some target
  | create .. | change .. | ask .. => none

end Move

/-- What is known of the names: the host as it is now, and the scope for which the context was built, with the host as
    it was then. -/
structure Chronicle (H : Type) where
  hosts : String → Option H
  built : String → Option (Scope H)

namespace Chronicle

def empty : Chronicle H :=
  ⟨fun _ => none, fun _ => none⟩

/-- The scope for which a context is built under the name now. -/
def scope (c : Chronicle H) (name : String) : Scope H :=
  ((c.hosts name).map .host).getD .type

/-- What is known after a move. -/
def note (c : Chronicle H) : Move H → Chronicle H
  | .create name h => { c with hosts := Function.update c.hosts name (some h) }
  | .change name f => { c with hosts := Function.update c.hosts name ((c.hosts name).map f) }
  | .installType name => { c with built := Function.update c.built name (some .type) }
  | .installHost name => { c with built := Function.update c.built name ((c.hosts name).map .host) }
  | .installApart name target => { c with built := Function.update c.built target (some (c.scope name)) }
  | .copy name target => { c with built := Function.update c.built target (c.built name) }
  | .ask .. => c

/-- What is known after moves from the start. -/
def after (moves : List (Move H)) : Chronicle H :=
  moves.foldl note empty

/-- The hosts and contexts that the move needs are there. -/
def Allows (c : Chronicle H) : Move H → Prop
  | .create .. | .installType _ | .installApart .. => True
  | .change name _ | .installHost name => (c.hosts name).isSome = true
  | .copy name _ | .ask name _ => (c.built name).isSome = true

/-- Each of the moves has what it needs when its turn comes. -/
def AllowsAll (c : Chronicle H) : List (Move H) → Prop
  | [] => True
  | m :: rest => c.Allows m ∧ (c.note m).AllowsAll rest

/-- What was noted for a name stays until a context is stored under the name. -/
theorem built_note {c : Chronicle H} {m : Move H} {name : String} (h : m.stores? ≠ some name) :
    (c.note m).built name = c.built name := by
  have hne : ∀ {other}, some other ≠ some name → name ≠ other := fun h heq => h (congrArg some heq.symm)
  cases m with
  | create | change | ask => rfl
  | installType | installHost | installApart | copy => exact Function.update_of_ne (hne h) _ _

theorem built_foldl_note {moves : List (Move H)} {c : Chronicle H} {name : String}
    (h : ∀ m ∈ moves, m.stores? ≠ some name) : (moves.foldl note c).built name = c.built name := by
  induction moves generalizing c with
  | nil => rfl
  | cons m rest ih =>
    obtain ⟨hm, hrest⟩ := List.forall_mem_cons.1 h
    rw [List.foldl_cons, ih hrest, built_note hm]

end Chronicle

/-! ## A session keeps up with its chronicle -/

/-- The hosts are those of the chronicle, and the contexts are those that the installer builds for the noted scopes. -/
structure Session.Tracks (installer : Installer H) (c : Chronicle H) (s : Session H) : Prop where
  installer_eq : s.installer = installer
  hosts : ∀ name, Entries.find? name s.hosts = c.hosts name
  tenants : ∀ name, (Entries.find? name s.tenants).map Tenant.context = (c.built name).map installer.context

/-- What is to be seen of a move: a question is answered as if it were the first one to a context that was just built
    for the noted scope, and nothing is seen of other moves. -/
def Chronicle.Tells (installer : Installer H) (c : Chronicle H) : Move H → Reply → Prop
  | .ask name q, reply => ∃ scope, c.built name = some scope ∧ reply = q.replyOf (installer.context scope)
  | _, reply => reply = ⟨none, []⟩

theorem Chronicle.Tells.opens {installer : Installer H} {c : Chronicle H} {m : Move H} {reply : Reply}
    (h : c.Tells installer m reply) {text : String} (htext : text ∈ reply.messages) :
    ∃ name q scope rest, m = .ask name q ∧ c.built name = some scope ∧
      text = installer.labels.opening scope ++ rest := by
  cases m with
  | ask name q =>
    obtain ⟨scope, hscope, rfl⟩ := h
    obtain ⟨rest, hrest⟩ := q.opens_replyOf installer scope text htext
    exact ⟨name, q, scope, rest, rfl, hscope, hrest⟩
  | _ =>
    obtain rfl := h
    cases htext

namespace Session
variable {installer : Installer H} {c : Chronicle H} {s : Session H}

theorem tracks_start (installer : Installer H) : Tracks installer .empty (start installer) where
  installer_eq := rfl
  hosts _ := rfl
  tenants _ := rfl

theorem Tracks.setHost (h : Tracks installer c s) (name : String) (host : H) :
    Tracks installer { c with hosts := Function.update c.hosts name (some host) }
      { s with hosts := Entries.insert name host s.hosts } where
  installer_eq := h.installer_eq
  hosts other := by
    show Entries.find? other (Entries.insert name host s.hosts) = Function.update c.hosts name (some host) other
    by_cases hother : other = name
    · subst hother
      rw [Entries.find?_insert_self, Function.update_self]
    · rw [Entries.find?_insert_of_ne hother, Function.update_of_ne hother, h.hosts]
  tenants := h.tenants

theorem Tracks.setTenant (h : Tracks installer c s) {name : String} {t : Tenant} {scope : Option (Scope H)}
    (ht : some t.context = scope.map installer.context) (tallies : List Nat) (lines : List Line) :
    Tracks installer { c with built := Function.update c.built name scope }
      { s with tenants := Entries.insert name t s.tenants, tallies, lines } where
  installer_eq := h.installer_eq
  hosts := h.hosts
  tenants other := by
    show (Entries.find? other (Entries.insert name t s.tenants)).map Tenant.context =
      (Function.update c.built name scope other).map installer.context
    by_cases hother : other = name
    · subst hother
      rw [Entries.find?_insert_self, Function.update_self]
      exact ht
    · rw [Entries.find?_insert_of_ne hother, Function.update_of_ne hother, h.tenants]

theorem Tracks.find?_host (h : Tracks installer c s) {name : String} (hname : (c.hosts name).isSome = true) :
    ∃ host, c.hosts name = some host ∧ Entries.find? name s.hosts = some host := by
  obtain ⟨host, hhost⟩ := Option.isSome_iff_exists.1 hname
  exact ⟨host, hhost, (h.hosts name).trans hhost⟩

theorem Tracks.find?_tenant (h : Tracks installer c s) {name : String} (hname : (c.built name).isSome = true) :
    ∃ scope t, c.built name = some scope ∧ Entries.find? name s.tenants = some t ∧
      t.context = installer.context scope := by
  obtain ⟨scope, hscope⟩ := Option.isSome_iff_exists.1 hname
  have hcontext := h.tenants name
  rw [hscope] at hcontext
  obtain ⟨t, ht, hcontext⟩ := Option.map_eq_some_iff.1 hcontext
  exact ⟨scope, t, hscope, ht, hcontext⟩

/-- An allowed move can be made. What is seen of it is what the chronicle tells, and the session keeps up. -/
theorem Tracks.make (h : Tracks installer c s) {m : Move H} (hm : c.Allows m) :
    ∃ answer lines s', m.make.run s = some (answer, s') ∧ s'.lines = s.lines ++ lines ∧
      c.Tells installer m ⟨answer, lines⟩ ∧ Tracks installer (c.note m) s' := by
  obtain rfl := h.installer_eq
  have hsilent : s.lines = s.lines ++ [] := (List.append_nil s.lines).symm
  cases m with
  | create name host => exact ⟨none, [], _, rfl, hsilent, rfl, h.setHost name host⟩
  | change name f =>
    obtain ⟨host, hhost, hname⟩ := h.find?_host hm
    have hnote : c.note (.change name f) = { c with hosts := Function.update c.hosts name (some (f host)) } := by
      rw [Chronicle.note, hhost]
      rfl
    rw [Move.make, StateT.run_bind, run_change hname, hnote]
    exact ⟨none, [], _, rfl, hsilent, rfl, h.setHost name (f host)⟩
  | installType name => exact ⟨none, [], _, rfl, hsilent, rfl, h.setTenant rfl _ _⟩
  | installHost name =>
    obtain ⟨host, hhost, hname⟩ := h.find?_host hm
    obtain ⟨heading, tallies, hrun⟩ := run_installHost hname
    have hnote : c.note (.installHost name) =
        { c with built := Function.update c.built name (some (.host host)) } := by
      rw [Chronicle.note, hhost]
      rfl
    rw [Move.make, StateT.run_bind, hrun, hnote]
    exact ⟨none, [], _, rfl, hsilent, rfl, h.setTenant rfl _ _⟩
  | installApart name target =>
    obtain ⟨headings, tallies, hrun⟩ := run_installApart s name target
    rw [Move.make, StateT.run_bind, hrun, h.hosts]
    exact ⟨none, [], _, rfl, hsilent, rfl, h.setTenant rfl _ _⟩
  | copy name target =>
    obtain ⟨scope, t, hscope, hname, hcontext⟩ := h.find?_tenant hm
    have hnote : c.note (.copy name target) = { c with built := Function.update c.built target (some scope) } := by
      rw [Chronicle.note, hscope]
    rw [Move.make, StateT.run_bind, run_copy hname, hnote]
    exact ⟨none, [], _, rfl, hsilent, rfl, h.setTenant (congrArg some hcontext) _ _⟩
  | ask name q =>
    obtain ⟨scope, t, hscope, hname, hcontext⟩ := h.find?_tenant hm
    obtain ⟨count, tallies, hrun⟩ := run_use hname q.ask
    rw [hcontext] at hrun
    -- the session asks from its own journal, which makes no difference as the heading is fixed
    obtain ⟨hanswer, hlines⟩ := q.uniform_ask s.installer scope ⟨count, s.lines⟩
    rw [hanswer, hlines] at hrun
    rw [Move.make, StateT.run_map, hrun]
    exact ⟨_, _, _, rfl, rfl, ⟨scope, hscope, rfl⟩, ⟨rfl, h.hosts, h.tenants⟩⟩

theorem Tracks.perform (h : Tracks installer c s) {m : Move H} (hm : c.Allows m) :
    ∃ reply s', m.perform.run s = some (reply, s') ∧ s'.lines = s.lines ++ reply.lines ∧
      c.Tells installer m reply ∧ Tracks installer (c.note m) s' := by
  obtain ⟨answer, lines, s', hrun, hlines, htells, htracks⟩ := h.make hm
  refine ⟨⟨answer, lines⟩, s', ?_, hlines, htells, htracks⟩
  rw [Move.perform, StateT.run_bind, run_observed hrun, hlines, List.drop_left]
  rfl

theorem Tracks.performAll {moves : List (Move H)} (h : Tracks installer c s) (hmoves : c.AllowsAll moves) :
    ∃ replies s', (Move.performAll moves).run s = some (replies, s') ∧ replies.length = moves.length ∧
      s'.lines = s.lines ++ replies.flatMap Reply.lines ∧ Tracks installer (moves.foldl Chronicle.note c) s' ∧
      ∀ (k : Nat) (m : Move H) (reply : Reply), moves[k]? = some m → replies[k]? = some reply →
        ((moves.take k).foldl Chronicle.note c).Tells installer m reply := by
  -- on the moves, with the session and the chronicle that the first move leads to
  induction moves generalizing c s with
  | nil => exact ⟨[], s, rfl, rfl, (List.append_nil _).symm, h, fun k m reply hm => nomatch hm⟩
  | cons first rest ih =>
    obtain ⟨reply, s₁, hrun, hlines, htells, h₁⟩ := h.perform hmoves.1
    obtain ⟨replies, s₂, hruns, hlength, hlines', h₂, htold⟩ := ih h₁ hmoves.2
    refine ⟨reply :: replies, s₂, ?_, congrArg (· + 1) hlength, ?_, h₂, fun k m reply' hm hreply => ?_⟩
    · rw [Move.performAll] at hruns
      rw [Move.performAll, List.mapM_cons, StateT.run_bind, hrun]
      show ((rest.mapM Move.perform >>= fun replies => pure (reply :: replies)).run s₁) = _
      rw [StateT.run_bind, hruns]
      rfl
    · rw [hlines', hlines, List.flatMap_cons, List.append_assoc]
    · cases k with
      | zero =>
        obtain rfl := Option.some.inj hm
        obtain rfl := Option.some.inj hreply
        exact htells
      | succ k => exact htold k m reply' hm hreply

/-- What is seen of moves that lead from the start to the session `s`. -/
structure Frozen (installer : Installer H) (moves : List (Move H)) (replies : List Reply) (s : Session H) : Prop where
  /-- Every move has a reply. -/
  length_eq : replies.length = moves.length
  /-- Every line is in a reply. -/
  lines_eq : s.lines = replies.flatMap Reply.lines
  /-- A question to a name is answered as by a context that was just built for the scope that is noted for the name,
      and nothing is seen of other moves. -/
  told : ∀ (k : Nat) (m : Move H) (reply : Reply), moves[k]? = some m → replies[k]? = some reply →
    (Chronicle.after (moves.take k)).Tells installer m reply
  /-- Every message comes from a question and opens with the label that the host had when the context was built. -/
  opens : ∀ (k : Nat) (reply : Reply) (text : String), replies[k]? = some reply → text ∈ reply.messages →
    ∃ name q scope rest, moves[k]? = some (.ask name q) ∧
      (Chronicle.after (moves.take k)).built name = some scope ∧ text = installer.labels.opening scope ++ rest
  /-- What is noted for a name stays, whatever happens, until a context is stored under the name. -/
  kept : ∀ (j k : Nat) (name : String), j ≤ k → (∀ m ∈ (moves.take k).drop j, m.stores? ≠ some name) →
    (Chronicle.after (moves.take k)).built name = (Chronicle.after (moves.take j)).built name

/-- Whatever is done in whatever order, if it can be done: a context says what it was built to say. -/
theorem contexts_frozen (installer : Installer H) {moves : List (Move H)} (h : Chronicle.empty.AllowsAll moves) :
    ∃ replies s, (Move.performAll moves).run (start installer) = some (replies, s) ∧
      Frozen installer moves replies s := by
  obtain ⟨replies, s, hrun, hlength, hlines, -, htold⟩ := (tracks_start installer).performAll h
  refine ⟨replies, s, hrun, ⟨hlength, hlines, htold, fun k reply text hreply htext => ?_, fun j k name hjk hlater => ?_⟩⟩
  · obtain ⟨hk, -⟩ := List.getElem?_eq_some_iff.1 hreply
    rw [hlength] at hk
    have hmove : moves[k]? = some moves[k] := List.getElem?_eq_getElem hk
    obtain ⟨name, q, scope, rest, hask, hbuilt, htext⟩ := (htold k _ reply hmove hreply).opens htext
    exact ⟨name, q, scope, rest, hmove.trans (congrArg some hask), hbuilt, htext⟩
  · have htake : (moves.take k).take j = moves.take j := by rw [List.take_take, Nat.min_eq_left hjk]
    have hsplit : moves.take k = moves.take j ++ (moves.take k).drop j := by rw [← htake, List.take_append_drop]
    rw [hsplit, Chronicle.after, List.foldl_append]
    exact Chronicle.built_foldl_note hlater

/-- A copy keeps the label that the host has lost, also when the context of the host is built anew. -/
theorem contexts_frozen_renamed :
    let installer : Installer Host :=
      ⟨⟨"Port", some HostLabel.nicknameOrId.label⟩, .ofTable Registry.presenceTests, .memory, none⟩
    let moves : List (Move Host) :=
      [.create "a" ⟨7, some "http"⟩, .installHost "a", .copy "a" "b", .change "a" fun h => { h with nickname := none },
        .ask "a" (.check (.isNamed "defined") .undefined "x"), .installHost "a", .installApart "c" "d",
        .ask "a" (.check (.isNamed "defined") .undefined "x"),
        .ask "b" (.assertion (.isNamed "defined") .undefined "x"),
        .ask "d" (.check (.isNamed "defined") .undefined "x")]
    Chronicle.empty.AllowsAll moves ∧
    (∃ replies s, (Move.performAll moves).run (start installer) = some (replies, s) ∧
      Frozen installer moves replies s) ∧
    ((Move.performAll moves).run (start installer)).map (fun r => r.1.flatMap Reply.messages) =
      some ["Port(http): x expected defined but got [undefined]", "Port(7): x expected defined but got [undefined]",
        "Port(http): x expected defined but got [undefined]", "Port: x expected defined but got [undefined]"] := by
  intro installer moves
  have hallows : Chronicle.empty.AllowsAll moves :=
    ⟨trivial, rfl, rfl, rfl, rfl, rfl, trivial, rfl, rfl, rfl, trivial⟩
  exact ⟨hallows, contexts_frozen installer hallows, by decide +kernel⟩

end Session

end Conform

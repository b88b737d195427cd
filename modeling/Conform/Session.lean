import Conform.Installer
import Conform.Journal
/- Sessions: one installer at work. A session holds named hosts of one type, named contexts and one journal. Hosts
   change and contexts do not: a context keeps the heading with which it was built, until one is built anew under its
   name. Every context has a tally of the headings made for it; a copy shares the tally of what it was copied from. -/
namespace Conform

/-- A host with a number and perhaps a nickname. -/
structure Host where
  id : Int
  nickname : Option String
  deriving DecidableEq, Repr

/-- How a host gets its label. -/
inductive HostLabel where
  | nickname
  | id
  | nicknameOrId
  deriving DecidableEq, Repr

/-- The label of a host. An empty nickname is a nickname. -/
def HostLabel.label : HostLabel → Host → Option String
  | nickname, host => host.nickname
  | id, host => some (toString host.id)
  | nicknameOrId, host => some (host.nickname.getD (toString host.id))

/-- A context with the number of its tally. -/
structure Tenant where
  context : Context
  tally : Nat

structure Session (H : Type) where
  installer : Installer H
  hosts : List (String × H)
  tenants : List (String × Tenant)
  /-- How many headings were made, by tally. -/
  tallies : List Nat
  lines : List Line

namespace Session

/-- An action of a session over hosts of a type. It fails if it needs a host or a context that is not there. -/
abbrev ActionOf (H : Type) := StateT (Session H) Option

/-- An action of a session over hosts with a number and a nickname. -/
abbrev Action := ActionOf Host

variable {H : Type}

def start (installer : Installer H) : Session H :=
  ⟨installer, [], [], [], []⟩

def host (name : String) : ActionOf H H := do
  Entries.find? name (← get).hosts

def tenant (name : String) : ActionOf H Tenant := do
  Entries.find? name (← get).tenants

def setHost (name : String) (h : H) : ActionOf H Unit :=
  modify fun s => { s with hosts := Entries.insert name h s.hosts }

def setTenant (name : String) (t : Tenant) : ActionOf H Unit :=
  modify fun s => { s with tenants := Entries.insert name t s.tenants }

/-- Stores a new context under a name, with a tally of its own. -/
def enroll (name : String) (context : Context) : ActionOf H Tenant := do
  let s ← get
  let t : Tenant := ⟨context, s.tallies.length⟩
  set { s with tallies := s.tallies ++ [0], tenants := Entries.insert name t s.tenants }
  return t

/-- Runs an action of the journal with the tally of a tenant. -/
def within {α : Type} (t : Tenant) (action : Journaled α) : ActionOf H α := do
  let s ← get
  let (a, journal) := action.run ⟨s.tallies[t.tally]?.getD 0, s.lines⟩
  set { s with tallies := s.tallies.set t.tally journal.headings, lines := journal.lines }
  return a

/-- Runs an action of the journal that makes no heading. -/
def aside {α : Type} (action : Journaled α) : ActionOf H α := do
  let s ← get
  let (a, journal) := action.run ⟨0, s.lines⟩
  set { s with lines := journal.lines }
  return a

/-- Builds the context of the type and stores it. -/
def installType (name : String) : ActionOf H String := do
  let t ← enroll name ((← get).installer.context .type)
  within t t.context.heading

/-- Builds the context of a host and stores it under the name of the host. -/
def installHost (name : String) : ActionOf H String := do
  let h ← host name
  let t ← enroll name ((← get).installer.context (.host h))
  within t t.context.heading

/-- Creates a host and builds its context. -/
def createHost (name : String) (h : H) : ActionOf H String := do
  setHost name h
  installHost name

/-- Changes a host and nothing else. -/
def change (name : String) (f : H → H) : ActionOf H Unit := do
  setHost name (f (← host name))

/-- Changes the nickname of a host and nothing else, and gives the heading of the context of that name. -/
def rename (name : String) (nickname : Option String) : Action String := do
  change name fun h => { h with nickname }
  let t ← tenant name
  within t t.context.heading

/-- The scope of a name: the host of that name, or the type if there is none. -/
def scope (name : String) : ActionOf H (Scope H) := do
  match Entries.find? name (← get).hosts with
  | some h => return .host h
  | none => return .type

/-- Builds the dispatchers for the scope of a name one by one and stores them together under another name. -/
def installApart (name target : String) : ActionOf H (List String) := do
  let scope ← scope name
  let i := (← get).installer
  let t ← enroll target ⟨i.installQuery, i.installAssertion scope, i.installCheck scope⟩
  let first ← within t t.context.heading
  let second ← within t t.context.assertion.heading.next
  let third ← within t t.context.check.heading.next
  return [first, second, third]

/-- Stores a context whose headings count how often one was made, with the registry and the sink of the installer and
    without options. -/
def installCounting (name : String) : ActionOf H Unit := do
  let i := (← get).installer
  let _ ← enroll name (.make ⟨i.registry, none⟩ (fun n => "#" ++ toString n ++ ":") i.sink)

/-- Stores a context under one more name. -/
def copy (name target : String) : ActionOf H Unit := do
  setTenant target (← tenant name)

/-- Uses the context of a name. -/
def use {α : Type} (name : String) (action : Context → Journaled α) : ActionOf H α := do
  let t ← tenant name
  within t (action t.context)

/-- Runs an action and gives the lines that it wrote, too. -/
def observed {α : Type} (action : ActionOf H α) : ActionOf H (α × List Line) := do
  let before := (← get).lines.length
  let a ← action
  return (a, (← get).lines.drop before)

section
variable {s : Session H} {name : String}

theorem run_host {h : H} (hname : Entries.find? name s.hosts = some h) : (host name).run s = some (h, s) := by
  show (Entries.find? name s.hosts).bind (fun h => some (h, s)) = some (h, s)
  rw [hname]
  rfl

theorem run_tenant {t : Tenant} (hname : Entries.find? name s.tenants = some t) :
    (tenant name).run s = some (t, s) := by
  show (Entries.find? name s.tenants).bind (fun t => some (t, s)) = some (t, s)
  rw [hname]
  rfl

theorem run_change {h : H} (hname : Entries.find? name s.hosts = some h) (f : H → H) :
    (change name f).run s = some ((), { s with hosts := Entries.insert name (f h) s.hosts }) := by
  rw [change, StateT.run_bind, run_host hname]
  rfl

theorem run_installHost {h : H} (hname : Entries.find? name s.hosts = some h) : ∃ heading tallies,
    (installHost name).run s = some (heading, { s with
      tallies, tenants := Entries.insert name ⟨s.installer.context (.host h), s.tallies.length⟩ s.tenants }) := by
  rw [installHost, StateT.run_bind, run_host hname]
  exact ⟨_, _, rfl⟩

theorem run_scope (s : Session H) (name : String) :
    (scope name).run s = some (((Entries.find? name s.hosts).map .host).getD .type, s) := by
  rw [scope, StateT.run_bind, StateT.run_get, pure_bind]
  cases Entries.find? name s.hosts <;> rfl

theorem run_installApart (s : Session H) (name target : String) : ∃ headings tallies,
    (installApart name target).run s = some (headings, { s with
      tallies, tenants := Entries.insert target ⟨s.installer.context (((Entries.find? name s.hosts).map .host).getD .type),
        s.tallies.length⟩ s.tenants }) := by
  rw [installApart, StateT.run_bind, run_scope]
  exact ⟨_, _, rfl⟩

theorem run_copy {t : Tenant} (hname : Entries.find? name s.tenants = some t) (target : String) :
    (copy name target).run s = some ((), { s with tenants := Entries.insert target t s.tenants }) := by
  rw [copy, StateT.run_bind, run_tenant hname]
  rfl

theorem run_use {α : Type} {t : Tenant} (hname : Entries.find? name s.tenants = some t)
    (action : Context → Journaled α) :
    ∃ count tallies, (use name action).run s = some (((action t.context).run ⟨count, s.lines⟩).1, { s with
      tallies, lines := ((action t.context).run ⟨count, s.lines⟩).2.lines }) := by
  rw [use, StateT.run_bind, run_tenant hname]
  exact ⟨_, _, rfl⟩

theorem run_observed {α : Type} {action : ActionOf H α} {a : α} {s' : Session H} (h : action.run s = some (a, s')) :
    (observed action).run s = some ((a, s'.lines.drop s.lines.length), s') := by
  rw [observed, StateT.run_bind, StateT.run_get, pure_bind, StateT.run_bind, h]
  rfl

end

end Session

end Conform

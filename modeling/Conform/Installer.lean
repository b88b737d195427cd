import Conform.Dispatch
/- Installers: dispatchers for a type of hosts. A host type has a label and may have a label for each host; an
   installer makes queries, assertions and checks whose messages start with these labels. The heading for a host is made
   from the label that the host has at that time and stays as it is. -/
namespace Conform

/-- How the hosts of a type are called in messages. -/
structure Labels (H : Type) where
  /-- The label of the type. -/
  classLabel : String
  /-- The label of a host, where there is a rule for it and the host has one. -/
  instanceLabel : Option (H → Option String)

namespace Labels

variable {H : Type}

def classHeading (l : Labels H) : String :=
  l.classLabel ++ ":"

/-- The heading of a host; that of the type if the host has no label. -/
def instanceHeading (l : Labels H) (host : H) : String :=
  match l.instanceLabel.bind fun label => label host with
  | some label => l.classLabel ++ "(" ++ label ++ "):"
  | none => l.classHeading

def outline (l : Labels H) : Outline :=
  .record "ContextConfig"
    [("class_label", .quoted l.classLabel), ("instance_label", .ofBool l.instanceLabel.isSome)] true

end Labels

/-- Whom messages speak for. -/
inductive Scope (H : Type) where
  | type
  | host (h : H)

/-- A query, an assertion and a check that belong together. -/
structure Context where
  query : Query
  assertion : Assertion
  check : Check

namespace Context

def heading (c : Context) : Journaled String :=
  c.assertion.heading.next

/-- The structure of a context, for which two headings are made. -/
def outline (c : Context) : Journaled Outline := do
  let assertion ← c.assertion.outline
  let check ← c.check.outline
  return .record "ValidationContext"
    [("query", c.query.outline), ("assert", assertion), ("check", check)] true

/-- The dispatchers over one matcher with one heading. -/
def make (matcher : Matcher) (heading : Heading) (sink : Sink) : Context :=
  ⟨⟨matcher⟩, ⟨matcher, heading⟩, ⟨matcher, heading, sink⟩⟩

end Context

/-- Makes dispatchers for hosts. -/
structure Installer (H : Type) where
  labels : Labels H
  registry : Registry
  sink : Sink
  expansion : Option Expansion

namespace Installer

variable {H : Type}

def matcher (i : Installer H) : Matcher :=
  ⟨i.registry, i.expansion⟩

def heading (i : Installer H) : Scope H → String
  | .type => i.labels.classHeading
  | .host h => i.labels.instanceHeading h

/-- A query. It writes nothing and needs no heading. -/
def installQuery (i : Installer H) : Query :=
  ⟨i.matcher⟩

def installAssertion (i : Installer H) (scope : Scope H) : Assertion :=
  ⟨i.matcher, .fixed (i.heading scope)⟩

def installCheck (i : Installer H) (scope : Scope H) : Check :=
  ⟨i.matcher, .fixed (i.heading scope), i.sink⟩

/-- All dispatchers for a scope, with one heading for all messages. -/
def context (i : Installer H) (scope : Scope H) : Context :=
  .make ⟨i.registry, i.expansion⟩ (.fixed (i.heading scope)) i.sink

/-- The structure of an installer shows the number of its tests. -/
def outline (i : Installer H) : Outline :=
  .record "Installer"
    [("config", i.labels.outline), ("registry", .ofNat i.registry.size), ("options", i.matcher.outline)] false

end Installer

end Conform

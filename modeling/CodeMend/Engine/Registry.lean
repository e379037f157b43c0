import CodeMend.Engine.Rule

/-!
# The registry

Rules are registered one after the other and then frozen into a `Registry`.  Every id belongs to one
rule: an analyzer claims the ids of its descriptors in turn, a refactoring claims its own.  The ids
that a refused analyzer had claimed before the clash stay claimed.
-/

namespace CodeMend

/-- Rules being registered. -/
structure Enrolment where
  analyzers : List Analyzer := []
  providers : List FixProvider := []
  refactorings : List Refactoring := []
  /-- The ids that are taken. -/
  claimed : List String := []

/-- The rules of a program. -/
structure Registry where
  analyzers : List Analyzer := []
  providers : List FixProvider := []
  refactorings : List Refactoring := []

namespace Enrolment

/-- Claims ids in turn, up to the first one that is taken. -/
def claim : List String → Enrolment → Enrolment × Option Failure
  | [], e => (e, none)
  | id :: ids, e =>
    if e.claimed.contains id then (e, some (.rule id "id is already registered"))
    else claim ids { e with claimed := id :: e.claimed }

/-- Registers an analyzer, which must have a descriptor; all its ids must be free. -/
def addAnalyzer (e : Enrolment) (a : Analyzer) : Enrolment × Option Failure :=
  if a.descriptors.isEmpty then (e, some (.rule a.id "analyzer registered without descriptors"))
  else match claim (a.descriptors.map Descriptor.id) e with
    | (e, none) => ({ e with analyzers := e.analyzers ++ [a] }, none)
    | (e, some f) => (e, some f)

/-- Registers a fix provider.  Several may mend the same id. -/
def addProvider (e : Enrolment) (p : FixProvider) : Enrolment :=
  { e with providers := e.providers ++ [p] }

/-- Registers a refactoring, whose id must be free. -/
def addRefactoring (e : Enrolment) (r : Refactoring) : Enrolment × Option Failure :=
  match claim [r.id] e with
  | (e, none) => ({ e with refactorings := e.refactorings ++ [r] }, none)
  | (e, some f) => (e, some f)

/-- The registry of what was registered.  A provider must not name an id that no analyzer
reports. -/
def build (e : Enrolment) : Except Failure Registry :=
  let known := (e.analyzers.flatMap Analyzer.descriptors).map Descriptor.id
  match (e.providers.flatMap FixProvider.ids).find? (fun id => !known.contains id) with
  | some id => .error (.rule id "fix provider registered for an unknown diagnostic")
  | none => .ok ⟨e.analyzers, e.providers, e.refactorings⟩

end Enrolment

namespace Registry

/-- What the analyzers may report, in the order of registration. -/
def descriptors (r : Registry) : List Descriptor := r.analyzers.flatMap Analyzer.descriptors

/-- The descriptor of an id. -/
def descriptor? (r : Registry) (id : String) : Option Descriptor :=
  r.descriptors.find? (·.id == id)

/-- The providers for a diagnostic, each as often as it lists the id. -/
def dispatch (r : Registry) (d : Diagnostic) : List FixProvider :=
  r.providers.flatMap fun p => List.replicate (p.ids.count d.id) p

end Registry

end CodeMend

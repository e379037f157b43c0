import CodeMend.Engine.Fixes

/-!
# Editing sessions

A session works on one document: its diagnostics are found, fixes and refactorings are applied to it,
and each success gives the next version.  One diagnostic can be held over from an earlier version;
whether it still fits is for the engine to say.
-/

namespace CodeMend

/-- A document that is worked on. -/
structure Session where
  registry : Registry
  options : Options
  document : Document
  /-- A diagnostic that was kept. -/
  held : Option Diagnostic := none

namespace Session

/-- The number of the next version. -/
def next (s : Session) : Nat := s.document.version + 1

/-- What the rules find. -/
def report (s : Session) (cancel : Cancellation) : Except Failure Report :=
  s.registry.analyze s.document s.options cancel

/-- Keeps the `n`th diagnostic with an id, or none if there are not so many. -/
def hold (s : Session) (id : String) (n : Nat) (cancel : Cancellation) : Except Failure Session := do
  let report ← s.report cancel
  return { s with held := (report.diagnostics.filter (·.id == id))[n]? }

/-- Applies an action if there is one. -/
def applyAction (s : Session) : Option CodeAction → Except Failure (Option (Applied × Session))
  | none => .ok none
  | some a => do
    let v ← a.apply s.document s.options {} s.next
    return some (v, { s with document := v.document })

/-- Applies the first fix with a key of the diagnostic that was kept. -/
def fixHeld (s : Session) (key : FixKey) : Except Failure (Option (Applied × Session)) := do
  match s.held with
  | none => return none
  | some d => s.applyAction ((← s.registry.fixes s.document d s.options).find? (·.key == key))

/-- Applies the first refactoring for a span. -/
def refactor (s : Session) (span : Span) : Except Failure (Option (Applied × Session)) :=
  s.applyAction (s.registry.refactoringsAt s.document span s.options).head?

/-- Applies all fixes with a key. -/
def fixAll (s : Session) (id : String) (key : FixKey) (cancel : Cancellation) :
    Except Failure (FixAll × Session) := do
  let f ← s.registry.fixAll s.document id key s.options cancel s.next
  return (f, { s with document := f.document })

/-- Reads the text of the document anew. -/
def reparse (s : Session) : Session := { s with document := s.document.reparse s.next }

end Session

end CodeMend

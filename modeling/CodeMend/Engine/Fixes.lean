import CodeMend.Engine.Analysis

/-!
# Fixes

The actions that the providers offer for a diagnostic, the refactorings on offer at a place, and one
variant of a fix applied to all occurrences at once.
-/

namespace CodeMend

/-- The first key that occurs again. -/
def FixKey.repeated? : List FixKey → List FixKey → Option FixKey
  | _, [] => none
  | seen, k :: ks => if seen.contains k then some k else repeated? (k :: seen) ks

namespace Registry

/-- The actions that are on offer for a diagnostic of the context's document, one for each variant:
no two may share a key. -/
def fixesIn (r : Registry) (c : Context) (d : Diagnostic) : Except Failure (List CodeAction) := do
  let offers ← (r.dispatch d).mapM fun p => (p.offer c d).settle d.id
  let actions := offers.flatten
  match FixKey.repeated? [] (actions.map CodeAction.key) with
  | some k => .error (.rule d.id ("equivalence key '" ++ k.text ++ "' offered twice"))
  | none => .ok actions

/-- The actions that are on offer for a diagnostic, which must be one of this version. -/
def fixes (r : Registry) (document : Document) (d : Diagnostic) (options : Options) :
    Except Failure (List CodeAction) :=
  if d.version == document.version then r.fixesIn (.ofDocument document options) d
  else .error (.stale d.id d.version document.version)

/-- The refactorings on offer at a place; one that fails is left out. -/
def refactoringsAt (r : Registry) (document : Document) (span : Span) (options : Options) :
    List CodeAction :=
  let c := Context.ofDocument document options
  r.refactorings.flatMap fun f => (Failure.drop ((f.offer c span).settle f.id)).getD []

end Registry

/-- What came of mending all occurrences. -/
structure FixAll where
  document : Document
  /-- The occurrences that were mended. -/
  fixed : Nat
  /-- The occurrences for which the variant was not on offer. -/
  skipped : Nat

/-- One variant of a fix gathered over all occurrences. -/
structure Batch where
  /-- The edits for all occurrences; none without any. -/
  patch? : Option Patch
  fixed : Nat
  skipped : Nat

namespace Registry

/-- Gathers one variant of a fix over every occurrence of a diagnostic. -/
def batch (r : Registry) (document : Document) (id : String) (key : FixKey) (options : Options)
    (cancel : Cancellation) : Except Failure Batch := do
  let c := Context.ofDocument document options
  let report ← r.analyzeIn c cancel
  let found := report.diagnostics.filter (·.id == id)
  let chosen ← found.mapM fun d => do
    return (← r.fixesIn c d).find? (·.key == key)
  let patches := (chosen.filterMap (·)).map CodeAction.patch
  return ⟨← Failure.ofEdit (Patch.merge patches), patches.length, found.length - patches.length⟩

/-- Applies one variant of a fix to every occurrence of a diagnostic, all in one pass.  Without any
occurrence the document stays as it is; else the result gets the given stamp. -/
def fixAll (r : Registry) (document : Document) (id : String) (key : FixKey) (options : Options)
    (cancel : Cancellation) (stamp : Nat) : Except Failure FixAll := do
  let all ← r.batch document id key options cancel
  match all.patch? with
  | none => return ⟨document, all.fixed, all.skipped⟩
  | some patch =>
    let applied ← patch.mend ("Fix all '" ++ key.text ++ "'") document options cancel stamp
    return ⟨applied.document, all.fixed, all.skipped⟩

end Registry

end CodeMend

import CodeMend.Engine.Registry

/-!
# Analysis

Every node of a document is visited once, in the order of the text, by the analyzers for its kind.
An analyzer that breaks down loses what it stated at that node, is recorded as a fault and visits no
further node; the others go on.
-/

namespace CodeMend

/-- What an analysis found. -/
structure Report where
  /-- The diagnostics in their order. -/
  diagnostics : List Diagnostic
  /-- One fault for each analyzer that broke down. -/
  faults : List Failure

/-- An analysis under way. -/
structure Progress where
  /-- What was found so far, in the order of the visits. -/
  diagnostics : List Diagnostic := []
  faults : List Failure := []
  /-- The numbers of the analyzers that broke down. -/
  broken : List Nat := []

namespace Progress

/-- The analysis after the analyzer of number `i` has visited a node. -/
def visit (c : Context) (s : Site) (p : Progress) (i : Nat) (a : Analyzer) : Progress :=
  if p.broken.contains i then p
  else
    let v := a.visit c s
    match v.breakdown with
    | none => { p with diagnostics := p.diagnostics ++ v.findings.filterMap (a.diagnostic? c) }
    | some b => { p with faults := p.faults ++ [.fault a.id b.text], broken := i :: p.broken }

/-- The analysis after an analyzer has visited a node as often as it asks for nodes of its kind. -/
def visits (c : Context) (s : Site) (p : Progress) (i : Nat) (a : Analyzer) : Progress :=
  (List.replicate (a.kinds.count s.kind) a).foldl (fun p a => p.visit c s i a) p

/-- The analysis after all analyzers that are switched on have visited a node. -/
def node (c : Context) (analyzers : List Analyzer) (p : Progress) (s : Site) : Progress :=
  analyzers.zipIdx.foldl
    (fun p e => if e.1.isEnabled c.options then p.visits c s e.2 e.1 else p) p

end Progress

namespace Registry

/-- Runs every analyzer that is switched on over a document. -/
def analyzeIn (r : Registry) (c : Context) (cancel : Cancellation) : Except Failure Report := do
  cancel.check
  let p := c.root.subnodes.foldl (Progress.node c r.analyzers) {}
  return ⟨Diagnostic.sort p.diagnostics, p.faults⟩

/-- Runs every analyzer that is switched on over a document. -/
def analyze (r : Registry) (d : Document) (options : Options) (cancel : Cancellation) :
    Except Failure Report :=
  r.analyzeIn (.ofDocument d options) cancel

end Registry

end CodeMend

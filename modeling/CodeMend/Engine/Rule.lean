import CodeMend.Diagnostic.Report
import CodeMend.Edit.Editor
import CodeMend.Fix.Action
import CodeMend.Semantic.Model
import CodeMend.Syntax.Locate

/-!
# Rules

An `Analyzer` looks at single nodes and states findings, a `FixProvider` offers actions for what was
found, and a `Refactoring` offers actions at a place.  All three see the same `Context`.  Any of them
may break down; what then happens to the rest of the run is the business of the registry.
-/

namespace CodeMend

/-- What rules see in one run over one document. -/
structure Context where
  document : Document
  options : Options
  model : Model
  lines : LineIndex

namespace Context

/-- The context of a document. -/
def ofDocument (d : Document) (options : Options) : Context :=
  ⟨d, options, .ofDocument d options.catalog, .ofText d.text⟩

/-- The whole tree. -/
def root (c : Context) : Site := c.document.root

/-- A fresh editor on the document. -/
def editor (c : Context) : Editor := ⟨c.document, []⟩

/-- The deepest node around a span. -/
def nodeAt? (c : Context) (span : Span) : Option Site := c.root.findNode? span .following false

end Context

/-- How a rule broke down. -/
inductive Breakdown where
  | message (text : String)
  /-- It left no text behind. -/
  | unknown
deriving DecidableEq

/-- The wording of a breakdown. -/
def Breakdown.text : Breakdown → String
  | .message text => text
  | .unknown => "unknown panic payload"

/-! ## Analyzers -/

/-- What a rule found, before the options say how severe it is. -/
structure Finding where
  descriptor : Descriptor
  span : Span
  arguments : List String := []
  properties : Properties := {}

/-- What an analyzer did at one node: its findings and, if it broke down behind them, how. -/
structure Visit where
  findings : List Finding := []
  breakdown : Option Breakdown := none

/-- A rule that looks at nodes of some kinds. -/
structure Analyzer where
  /-- What it may report; the first one names the rule. -/
  descriptors : List Descriptor
  /-- The kinds of the nodes it looks at.  A node is looked at as often as its kind is listed. -/
  kinds : List Kind
  visit : Context → Site → Visit

namespace Analyzer

/-- The name of the rule. -/
def id (a : Analyzer) : String := (a.descriptors.head?.map Descriptor.id).getD "<unnamed>"

/-- An analyzer with one descriptor, which states its findings and never breaks down. -/
def ofFindings (descriptor : Descriptor) (kinds : List Kind)
    (findings : Context → Site → List Finding) : Analyzer :=
  ⟨[descriptor], kinds, fun c s => { findings := findings c s }⟩

/-- Is anything that it may report switched on? -/
def isEnabled (a : Analyzer) (o : Options) : Bool := a.descriptors.any o.isEnabled

/-- The diagnostic for a finding: none if the analyzer does not declare it, or if it is off. -/
def diagnostic? (a : Analyzer) (c : Context) (f : Finding) : Option Diagnostic := do
  guard (a.descriptors.any (·.id == f.descriptor.id))
  let severity ← c.options.severity? f.descriptor
  some
    { id := f.descriptor.id
      severity := severity
      message := f.descriptor.format f.arguments
      version := c.document.version
      span := f.span
      position := c.lines.position f.span.start
      properties := f.properties }

end Analyzer

/-! ## Offers -/

/-- What comes of asking a rule for actions. -/
inductive Offer where
  | actions (offered : List CodeAction)
  | failed (cause : Failure)
  | brokeDown (how : Breakdown)

namespace Offer

/-- Actions, or the refusal of the editor. -/
def ofEdits : Except EditError (List CodeAction) → Offer
  | .ok offered => .actions offered
  | .error e => .failed (.edit e)

/-- The outcome as a failure of the rule `id`. -/
def outcome (id : String) : Offer → Except Failure (List CodeAction)
  | .actions offered => .ok offered
  | .failed f => .error f
  | .brokeDown b => .error (.fault id b.text)

/-- The actions on offer.  Refused edits and breakdowns mean that there is none; other failures
stay. -/
def settle (id : String) (o : Offer) : Except Failure (List CodeAction) :=
  match o.outcome id with
  | .ok offered => .ok offered
  | .error f => if f.kind == .edit || f.kind == .fault then .ok [] else .error f

end Offer

/-- A rule that mends diagnostics with some ids. -/
structure FixProvider where
  /-- The ids it is asked about, as often as they are listed. -/
  ids : List String
  offer : Context → Diagnostic → Offer

/-- A rule that offers actions at a place. -/
structure Refactoring where
  id : String
  title : String
  offer : Context → Span → Offer

end CodeMend

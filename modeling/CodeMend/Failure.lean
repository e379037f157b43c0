import CodeMend.Edit.Refusal

/-!
# Failures

What can go wrong in a run, apart from "not applicable", which is never a failure.
-/

namespace CodeMend

/-- What went wrong. -/
inductive Failure where
  /-- A source text cannot be used. -/
  | parse (message : String)
  /-- A configuration cannot be found or read. -/
  | config (message : String)
  /-- A rule is registered wrongly or breaks its contract. -/
  | rule (id message : String)
  /-- A rule broke down while it ran. -/
  | fault (id message : String)
  /-- An edit was refused. -/
  | edit (cause : EditError)
  /-- A diagnostic was found in another version than the current one. -/
  | stale (id : String) (reported current : Nat)
  /-- A fix would have made the syntax worse. -/
  | fix (title message : String)
  /-- A file cannot be read. -/
  | io (path cause : String)
  | cancelled
  | internal (message : String)
  /-- The run asked for more text than memory or offsets can hold, and broke down. -/
  | overflow
deriving DecidableEq

/-- The kinds of failures. -/
inductive FailureKind where
  | parse
  | config
  | rule
  | fault
  | edit
  | stale
  | fix
  | io
  | cancelled
  | internal
  | overflow
deriving DecidableEq

/-- The word for a kind. -/
def FailureKind.label : FailureKind → String
  | .parse => "Parse"
  | .config => "Config"
  | .rule => "Rule"
  | .fault => "Fault"
  | .edit => "Edit"
  | .stale => "Stale"
  | .fix => "Fix"
  | .io => "Io"
  | .cancelled => "Cancelled"
  | .internal => "Internal"
  | .overflow => "Panic"

namespace Failure

/-- The kind of a failure. -/
def kind : Failure → FailureKind
  | .parse .. => .parse
  | .config .. => .config
  | .rule .. => .rule
  | .fault .. => .fault
  | .edit .. => .edit
  | .stale .. => .stale
  | .fix .. => .fix
  | .io .. => .io
  | .cancelled => .cancelled
  | .internal .. => .internal
  | .overflow => .overflow

/-- The wording of each failure. -/
def message : Failure → String
  | .parse m => "Parse error: " ++ m
  | .config m => "Configuration error: " ++ m
  | .rule id m => "Rule error in '" ++ id ++ "': " ++ m
  | .fault id m => "Rule '" ++ id ++ "' faulted: " ++ m
  | .edit cause => "Edit error: " ++ cause.message
  | .stale id reported current =>
    "Diagnostic '" ++ id ++ "' was reported against tree tree#" ++ toString reported
      ++ ", document is at tree tree#" ++ toString current
  | .fix title m => "Fix '" ++ title ++ "' produced invalid code: " ++ m
  | .io path cause => "IO error for path '" ++ path ++ "': " ++ cause
  | .cancelled => "Operation cancelled"
  | .internal m => "Internal error: " ++ m
  | .overflow => "capacity overflow"

/-- Can the run go on with other rules or documents? -/
def isRecoverable (f : Failure) : Bool :=
  match f.kind with
  | .parse | .fault | .edit | .fix => true
  | _ => false

/-- A recoverable failure counts as no result. -/
def recover {α : Type} : Except Failure α → Except Failure (Option α)
  | .ok a => .ok (some a)
  | .error f => if f.isRecoverable then .ok none else .error f

/-- Any failure counts as no result. -/
def drop {α : Type} : Except Failure α → Option α
  | .ok a => some a
  | .error _ => none

/-- A refused edit as a failure. -/
def ofEdit {α : Type} : Except EditError α → Except Failure α
  | .ok a => .ok a
  | .error e => .error (.edit e)

end Failure

/-- Whether the caller has asked to stop.  Long walks check it on the way. -/
structure Cancellation where
  requested : Bool := false

namespace Cancellation

/-- Stops a walk if the caller has asked for it. -/
def check (c : Cancellation) : Except Failure Unit :=
  if c.requested then .error .cancelled else .ok ()

end Cancellation

end CodeMend

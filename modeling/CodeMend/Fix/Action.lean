import CodeMend.Diff.Unified
import CodeMend.Edit.Indent
import CodeMend.Options

/-!
# Actions

A `CodeAction` is a patch with a title: it mends a diagnostic, or is offered at a place without one.
To apply it is to apply the patch, to indent what the patch marked and, unless that is switched off,
to refuse a result with more syntax errors than before.
-/

namespace CodeMend

/-- Names a variant of a fix across the places where it is offered: the id of a rule, or the id and
a variant behind a dot. -/
structure FixKey where
  text : String
deriving DecidableEq

namespace FixKey

/-- The key of a variant. -/
def ofVariant (id variant : String) : FixKey := ⟨id ++ "." ++ variant⟩

/-- The text up to the first dot. -/
def id (k : FixKey) : String := String.ofList (k.text.toList.takeWhile (· != '.'))

/-- The text behind the first dot. -/
def variant? (k : FixKey) : Option String :=
  match k.text.toList.dropWhile (· != '.') with
  | [] => none
  | _ :: rest => some (String.ofList rest)

end FixKey

/-- What an action is for. -/
inductive ActionKind where
  /-- It mends a diagnostic. -/
  | fix
  /-- It is offered at a place without a diagnostic. -/
  | refactoring
deriving DecidableEq

/-- The word for what an action is for. -/
def ActionKind.label : ActionKind → String
  | .fix => "Fix"
  | .refactoring => "Refactoring"

/-- A patch with a title. -/
structure CodeAction where
  title : String
  key : FixKey
  kind : ActionKind
  patch : Patch

/-- A document after an action, and the new identifier to rename, if any. -/
structure Applied where
  document : Document
  renameTarget : Option Span

/-- Applies a patch, indents what it marked and checks the result, which gets the given stamp. -/
def Patch.mend (p : Patch) (title : String) (d : Document) (options : Options)
    (cancel : Cancellation) (stamp : Nat) : Except Failure Applied := do
  let outcome ← Failure.ofEdit (p.apply d stamp)
  let indent ← Indent.patch options.config.formatterSettings outcome.document
    outcome.formatterSpans cancel
  let indented ←
    if indent.isEmpty then pure outcome.document
    else pure (← Indent.settle indent outcome.document stamp).document
  let target := outcome.renameTarget?.map fun s => if indent.isEmpty then s else indent.mapSpan s
  let errors := (parse indented.text).2
  if options.config.fixSettings.validates && d.errors.length < errors.length then
    throw (.fix title (toString errors.length ++ " syntax error(s) after the fix, "
      ++ toString d.errors.length ++ " before"))
  return ⟨{ indented with errors := errors }, target⟩

namespace CodeAction

/-- Applies the action. -/
def apply (a : CodeAction) (d : Document) (options : Options) (cancel : Cancellation)
    (stamp : Nat) : Except Failure Applied :=
  a.patch.mend a.title d options cancel stamp

/-- The unified diff between a document and what the action makes of it. -/
def preview (a : CodeAction) (d : Document) (options : Options) : Except Failure String := do
  let applied ← a.apply d options {} d.version
  return Diff.unified d.text applied.document.text

end CodeAction

end CodeMend

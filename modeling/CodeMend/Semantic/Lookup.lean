import CodeMend.Semantic.Model

/-!
# Lookups that climb

`Model.symbol?` first takes a name behind a dot for the access that it belongs to, and then only goes
down.  The lookups here are told as they are made: a name behind a dot asks its access, which asks its
receiver, which may be a name again.  Nothing in them gets smaller at every step, so they may go on
for ever; then there is no answer.  An answer may be that nothing is known.

A call written with `|>.` leaves nothing in the definition of where in the file it stands.
-/

namespace CodeMend

/-- A chain of names with dots between them. -/
def Site.spell (s : Site) : Option (Option String) :=
  match s.kind with
  | .identifierName => some s.identText?
  | .memberAccessExpression =>
    match s.left? with
    | none => some none
    | some receiver => do
      match ← (receiver |>.spell) with
      | none => some none
      | some space =>
        some ((s.memberName?.bind Site.identText?).map fun name => space ++ "." ++ name)
  | _ => some none
partial_fixpoint

namespace Model

mutual

/-- What a name, a member access, a call or a type refers to. -/
def seek (m : Model) (s : Site) : Option (Option Symbol) :=
  match s.kind with
  | .identifierName =>
    match accessOf? s with
    | some access => m |>.seekMember access
    | none => some (s.identText?.bind (m.nameAt? s))
  | .memberAccessExpression => m |>.seekMember s
  | .invocationExpression =>
    match s.left? with
    | some callee => m |>.seek callee
    | none => some none
  | .type => some (m.typeNamed? s.typeText)
  | _ => some none
partial_fixpoint

/-- What a member access refers to. -/
def seekMember (m : Model) (access : Site) : Option (Option Symbol) :=
  match access.memberName?.bind Site.identText?, access.left? with
  | some name, some receiver => do
    match ← (m |>.seek receiver) with
    | some symbol => some (m.accessed? receiver name (some symbol))
    | none =>
      let space ← receiver.spell
      some (space.bind fun space => m.typeNamed? (space ++ "." ++ name))
  | _, _ => some none
partial_fixpoint

end

/-- The type of an expression. -/
def seekType (m : Model) (s : Site) : Option (Option String) :=
  match s.kind with
  | .literalExpression => some (s.firstKind?.bind literalType?)
  | .parenthesizedExpression =>
    match s.expression? with
    | some e => m |>.seekType e
    | none => some none
  | .prefixUnaryExpression =>
    match s.firstKind? with
    | none => some none
    | some .bang => some (some "bool")
    | some _ =>
      match s.expression? with
      | some e => m |>.seekType e
      | none => some none
  | .binaryExpression =>
    match s.operator? with
    | none => some none
    | some operator =>
      if isPredicate operator || (operator == .gt && !s.isRightShift) then some (some "bool")
      else
        match s.left?, s.right? with
        | some l, some r => do
          match ← (m |>.seekType l) with
          | none => some none
          | some a =>
            match ← (m |>.seekType r) with
            | none => some none
            | some b => some (if a == b then some a else none)
        | some l, none => do
          let _ ← (m |>.seekType l)
          some none
        | none, _ => some none
  | .objectCreationExpression => some s.typeName?
  | .identifierName | .memberAccessExpression | .invocationExpression => do
    let found ← m.seek s
    some (found.bind fun symbol => if symbol.kind == .type then none else m.typeOf? symbol)
  | _ => some none
partial_fixpoint

end Model

end CodeMend

import CodeMend.Rules.DuplicateValue

/-!
# A new member for an enumeration

Appends a member with a fresh name and the next value, and marks its name for renaming.
-/

namespace CodeMend.Rules.NewEnumMember

/-- The id of the refactoring. -/
def id : String := "RR0001"

/-- What the refactoring does. -/
def title : String := "Generate enum member"

/-- The name of the new member, if it is free. -/
def baseName : String := "EnumMember"

/-- One more than the greatest value; for flags, the least power of two above all values. -/
def nextValue? (values : List Int64) (flags : Bool) : Option Int64 :=
  let greatest := values.max?
  if flags then DuplicateValue.powersOfTwo.find? fun p => greatest.all (· < p)
  else match greatest with
    | some v => Constant.checked (v.toInt + 1)
    | none => some 0

/-- The base name with the least number behind it, from two on, that makes it fresh. -/
def freshName (taken : List String) : String :=
  let numbered := (List.range (taken.length + 1)).map fun n => baseName ++ toString (n + 2)
  ((baseName :: numbered).find? fun name => !taken.contains name).getD baseName

/-- The separator of members. -/
def comma : Tree := .token .comma ","

/-- Indentation, if there is any. -/
def indentation (indent : String) : List Tree :=
  if indent.isEmpty then [] else [Snippet.whitespace indent]

/-- Trees, among them the new member, whose name is marked for renaming. -/
def marked (before : List Tree) (member : Tree) (after : List Tree) (name : String) :
    Replacement :=
  Replacement.annotate ⟨before ++ member :: after, []⟩ .renameTarget
    (.ofLength (Tree.widthAll before) name.utf8ByteSize)

/-- Behind a comma, on the same line, with a comma of its own. -/
def behindComma (e : Editor) (separator : Site) (member : Tree) (name : String) :
    Except EditError Editor :=
  e.insertAt separator.stop (marked [Snippet.whitespace " "] member [comma] name)

/-- The first line break in the enumeration around a member. -/
def lineBreakNear (member : Site) : String :=
  ((member.parent?.bind fun p => p.subtokens.find? (·.kind == .newline)).map Site.text).getD "\n"

/-- Behind the last member: on a line of its own if that one comes first on its line. -/
def append (e : Editor) (last : Site) (member : Tree) (name : String) : Except EditError Editor :=
  let indent := last.firstSignificant?.bind Site.lineIndent?
  let separator := (last.lastSignificant?.bind Site.nextSignificant?).filter (·.kind == .comma)
  match indent, separator with
  | some indent, some separator =>
    match separator.trailingTrivia.find? (·.kind == .newline) with
    | none => behindComma e separator member name
    | some newline =>
      e.insertAt separator.trailingSpan.stop
        (marked (indentation indent) member [comma, Snippet.newline newline.text] name)
  | some indent, none =>
    e.insertAfter last
      (marked ([comma, Snippet.newline (lineBreakNear last)] ++ indentation indent) member [] name)
  | none, some separator => behindComma e separator member name
  | none, none => e.insertAfter last (marked [comma, Snippet.whitespace " "] member [] name)

/-- Between the braces of an empty enumeration: on a line of its own if the closing brace has one. -/
def insertFirst (e : Editor) (opening closing : Site) (member : Tree) (name : String) :
    Except EditError Editor :=
  match opening.trailingTrivia.find? (·.kind == .newline), closing.lineIndent? with
  | some newline, some _ =>
    e.insertAt opening.trailingSpan.stop
      (marked [] member [Snippet.newline newline.text] name).formatted
  | _, _ =>
    let after :=
      if opening.nextToken?.any (·.same closing) then [Snippet.whitespace " "] else []
    e.insertAt opening.stop (marked [Snippet.whitespace " "] member after name)

/-- The new member of an enumeration whose values are all known, and its name. -/
def newMember? (m : Model) (enum : Site) : Option (Tree × String) := do
  let values ← enum.enumMembers.mapM (DuplicateValue.memberValue? m)
  let value ← nextValue? values (DuplicateValue.isFlags enum)
  let name := freshName (enum.enumMembers.filterMap Site.identText?)
  let member ← Snippet.enumMember (name ++ " = " ++ toString value.toInt)
  some (member, name)

/-- The enumeration around a span. -/
def enumAt? (c : Context) (span : Span) : Option Site :=
  (c.nodeAt? span).bind fun n => n.ancestors.find? (·.kind == .enumDeclaration)

/-- Adds a member to the enumeration around a span. -/
def refactor (c : Context) (span : Span) : Except EditError (List CodeAction) :=
  let found := do
    let enum ← enumAt? c span
    some (enum, ← newMember? c.model enum)
  let action (e : Editor) : List CodeAction := [⟨title, ⟨id⟩, .refactoring, e.patch⟩]
  match found with
  | none => .ok []
  | some (enum, member, name) =>
    match enum.enumMembers.getLast? with
    | some last => action <$> append c.editor last member name
    | none =>
      match enum.openBrace?, enum.closeBrace? with
      | some opening, some closing => action <$> insertFirst c.editor opening closing member name
      | _, _ => .ok []

/-- Offers the new member inside an enumeration. -/
def refactoring : Refactoring := ⟨id, title, fun c span => .ofEdits (refactor c span)⟩

end CodeMend.Rules.NewEnumMember

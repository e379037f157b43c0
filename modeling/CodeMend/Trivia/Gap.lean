import CodeMend.Trivia.Ownership

/-!
# Gaps between tokens

A `Gap` is the trivia between two significant tokens that follow each other.  Its kind says what a
rule about lines may do with it: a gap with comments or directives is never changed.
-/

namespace CodeMend

/-- What separates two tokens. -/
inductive GapKind where
  /-- Both are on one line. -/
  | noNewLine
  /-- Exactly one line break. -/
  | singleNewLine
  /-- Two or more line breaks. -/
  | blankLine
  /-- Comments or directives. -/
  | commentBearing
deriving DecidableEq

/-- The word for a kind of gap. -/
def GapKind.label : GapKind → String
  | .noNewLine => "NoNewLine"
  | .singleNewLine => "SingleNewLine"
  | .blankLine => "BlankLine"
  | .commentBearing => "CommentBearing"

/-- The trivia between two significant tokens that follow each other. -/
structure Gap where
  /-- From the end of the first token to the start of the second. -/
  span : Span
  /-- The tokens of trivia. -/
  trivia : List Site

namespace Gap

/-- The line breaks. -/
def lineBreaks (g : Gap) : List Site := g.trivia.filter (·.kind == .newline)

/-- Does it hold a comment? -/
def hasComments (g : Gap) : Bool := g.trivia.any (·.kind.isComment)

/-- Does it hold a directive? -/
def hasDirectives (g : Gap) : Bool := g.trivia.any (·.kind.isDirective)

/-- What separates the two tokens. -/
def kind (g : Gap) : GapKind :=
  if g.hasComments || g.hasDirectives then .commentBearing
  else match g.lineBreaks with
    | [] => .noNewLine
    | [_] => .singleNewLine
    | _ => .blankLine

/-- May a rule change it? -/
def isFixable (g : Gap) : Bool := g.kind != .commentBearing

/-- The text of the first line break. -/
def lineBreakText (g : Gap) : String := (g.lineBreaks.head?.map Site.text).getD "\n"

/-- Where one more line break turns a single line break into a blank line, so that the first line
break and the indentation of the second token stay as they are. -/
def blankLineInsertion? (g : Gap) : Option Nat :=
  if g.kind == .singleNewLine then g.lineBreaks.head?.map Site.stop else none

/-- What to delete to leave a single line break, the first one, and the indentation of the second
token. -/
def blankLines? (g : Gap) : Option Span :=
  if g.kind == .blankLine then do
    let first ← g.lineBreaks.head?
    let last ← g.lineBreaks.getLast?
    some ⟨first.stop, last.stop⟩
  else none

/-- The gap between two tokens; `none` if anything significant stands between them. -/
def betweenTokens? (a b : Site) : Option Gap := do
  let next ← a.nextSignificant?
  guard (next.same b)
  some ⟨⟨a.stop, b.start⟩, a.triviaAfter⟩

/-- The gap between two nodes or tokens that follow each other. -/
def between? (a b : Site) : Option Gap := do
  betweenTokens? (← a.lastSignificant?) (← b.firstSignificant?)

end Gap

end CodeMend

import CodeMend.Syntax.Site

/-!
# Who owns trivia

The trivia between two tokens is shared between them: up to and including the first line break it
*trails* the token before it, the rest *leads* the token behind it.  Trivia before the first token
leads it, and trivia without a line break all trails.

The full span of a node is its span with the trivia that leads its first and trails its last
significant token.
-/

namespace CodeMend.Site

/-! ## Significant neighbours -/

/-- Is it anything but trivia? -/
def isSignificant (s : Site) : Bool := !s.isTrivia

/-- The next significant token. -/
def nextSignificant? (s : Site) : Option Site := s.tokensAfter.find? isSignificant

/-- The significant token before. -/
def prevSignificant? (s : Site) : Option Site := s.tokensBefore.find? isSignificant

/-- The first significant token of a node; a token is its own. -/
def firstSignificant? (s : Site) : Option Site :=
  if s.isToken then some s
  else do
    let first ← s.firstToken?
    if first.isTrivia then first.nextSignificant?.filter (fun t => s.span.covers t.span)
    else some first

/-- The last significant token of a node; a token is its own. -/
def lastSignificant? (s : Site) : Option Site :=
  if s.isToken then some s
  else do
    let last ← s.lastToken?
    if last.isTrivia then last.prevSignificant?.filter (fun t => s.span.covers t.span)
    else some last

/-! ## Owned trivia -/

/-- The run of trivia behind a token. -/
def triviaAfter (s : Site) : List Site := s.tokensAfter.takeWhile isTrivia

/-- The run of trivia before a token, in the order of the text. -/
def triviaBefore (s : Site) : List Site := (s.tokensBefore.takeWhile isTrivia).reverse

/-- The part of a run that trails the token before it. -/
def trailingPart : List Site → List Site
  | [] => []
  | t :: ts => if t.kind == .newline then [t] else t :: trailingPart ts

/-- The part of a run that leads the token behind it. -/
def leadingPart : List Site → List Site
  | [] => []
  | t :: ts => if t.kind == .newline then ts else leadingPart ts

/-- The trivia that trails a token. -/
def trailingTrivia (s : Site) : List Site :=
  if s.isTrivia then [] else trailingPart s.triviaAfter

/-- The trivia that leads a token. -/
def leadingTrivia (s : Site) : List Site :=
  if s.isTrivia then []
  else if s.prevSignificant?.isNone then s.triviaBefore
  else leadingPart s.triviaBefore

/-- From the trivia that leads a token up to the token. -/
def leadingSpan (s : Site) : Span :=
  ⟨((s.leadingTrivia.head?).map start).getD s.start, s.start⟩

/-- From the end of a token to the end of what trails it. -/
def trailingSpan (s : Site) : Span :=
  ⟨s.stop, ((s.trailingTrivia.getLast?).map stop).getD s.stop⟩

/-- The span with the trivia owned by the first and last significant token. -/
def fullSpan (s : Site) : Span :=
  match s.firstSignificant?, s.lastSignificant? with
  | some first, some last =>
    ⟨min first.leadingSpan.start s.span.start, max last.trailingSpan.stop s.span.stop⟩
  | _, _ => s.span

/-! ## Tokens of a span, and lines -/

/-- The tokens of a tree that overlap a span, in the order of the text.  The walk goes from token to
token and so ends at an empty node. -/
def tokensIn (root : Site) (span : Span) : List Site :=
  match root.span.inter? span with
  | none => []
  | some common =>
    if common.isEmpty then []
    else match (root.touching common.start).getLast? with
      | none => []
      | some first =>
        (first :: first.tokensAfter).takeWhile (·.start < min span.stop root.span.stop)

/-- The white space before a token that comes first on its line. -/
def lineIndent? (s : Site) : Option String :=
  match s.tokensBefore with
  | [] => some ""
  | p :: before =>
    if p.kind == .newline then some ""
    else if p.kind == .whitespace then
      match before with
      | [] => some p.text
      | b :: _ => if b.kind == .newline then some p.text else none
    else none

end CodeMend.Site

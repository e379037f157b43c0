import CodeMend.Config.Yaml.Directive
import CodeMend.Config.Yaml.Scalar

/-!
# Tokens of an indented text

The tokens of a text, in which the indentation has been made visible: block collections have tokens
at their start and at their end, and a key has a token before it.  A key is known as such only by the
colon behind it, so the lexer keeps the place where a key may have started as a *candidate*, and the
tokens for it are put in there when the colon comes.  A candidate lives for one line and 1024
octets; one that stands where only a key can stand must turn out to be one.
-/

namespace CodeMend.Config.Yaml

/-- A token. -/
inductive Token where
  | directive (directive : Directive)
  | documentStart
  | documentEnd
  | sequenceStart
  | mappingStart
  | blockEnd
  /-- `[` -/
  | openBracket
  | closeBracket
  | openBrace
  | closeBrace
  /-- `-` before an item of a block. -/
  | item
  | comma
  /-- Before a key. -/
  | key
  /-- Before a value. -/
  | value
  | anchor (name : String)
  | reference (name : String)
  | tag (mark : TagMark)
  | scalar (style : Style) (text : String)
deriving DecidableEq

/-- A place where a key may have started. -/
structure Candidate where
  /-- The tokens before. -/
  tokens : Nat
  cursor : Cursor
  /-- Can only a key stand there? -/
  required : Bool

/-- The state of a lexer. -/
structure Lexer where
  cursor : Cursor
  tokens : List Token := []
  /-- The columns of the open block collections, innermost first. -/
  indents : List Nat := []
  /-- May a key start here? -/
  keyAllowed : Bool := true
  candidate : Option Candidate := none
  /-- The candidates outside of each open bracket, innermost first. -/
  outer : List (Option Candidate) := []

namespace Lexer

/-- Is the place within brackets? -/
def bracketed (l : Lexer) : Bool := !l.outer.isEmpty

/-- With one more token. -/
def push (l : Lexer) (t : Token) : Lexer := { l with tokens := l.tokens ++ [t] }

/-- Behind the next `n` characters. -/
def advance (l : Lexer) (n : Nat) : Lexer := { l with cursor := l.cursor.advance n }

/-! ## Candidates -/

/-- Is the candidate still alive at the cursor? -/
def Candidate.alive (k : Candidate) (c : Cursor) : Bool :=
  k.cursor.line == c.line && c.index ≤ k.cursor.index + 1024

/-- Gives the candidate up; nothing if it was required. -/
def giveUp? (l : Lexer) : Option Lexer :=
  if l.candidate.any (·.required) then none else some { l with candidate := none }

/-- Drops the candidates that are no longer alive; nothing if one of them was required. -/
def dropStale? (l : Lexer) : Option Lexer := do
  let fresh (k : Option Candidate) : Option (Option Candidate) :=
    match k with
    | some k =>
      if Candidate.alive k l.cursor then some (some k) else if k.required then none else some none
    | none => some none
  some { l with candidate := ← fresh l.candidate, outer := ← l.outer.mapM fresh }

/-- Makes the place a candidate if a key may start there. -/
def propose? (l : Lexer) : Option Lexer :=
  if l.keyAllowed then do
    let required := !l.bracketed && l.indents.head? == some l.cursor.column
    let l ← l.giveUp?
    some { l with candidate := some ⟨l.tokens.length, l.cursor, required⟩ }
  else some l

/-! ## Indentation -/

/-- Opens a block collection at a column, unless one is open there: `start` is put in as the `n`th
token. -/
def indentTo (l : Lexer) (column n : Nat) (start : Token) : Lexer :=
  if !l.bracketed && l.indents.head?.all (· < column) then
    { l with
      indents := column :: l.indents
      tokens := l.tokens.take n ++ start :: l.tokens.drop n }
  else l

/-- Closes the block collections for which `p` holds of their column, from the inside. -/
def close (l : Lexer) (p : Nat → Bool) : Lexer :=
  let closed := l.indents.takeWhile p
  { l with
    indents := l.indents.drop closed.length
    tokens := l.tokens ++ List.replicate closed.length .blockEnd }

/-- Closes what the indentation of the cursor closes. -/
def dedent (l : Lexer) : Lexer := if l.bracketed then l else l.close (l.cursor.column < ·)

/-- Closes everything, as at the end of a document. -/
def closeAll? (l : Lexer) : Option Lexer := do
  let l := if l.bracketed then l else l.close fun _ => true
  some { ← l.giveUp? with keyAllowed := false }

/-! ## Single tokens -/

/-- Passes blanks, comments and line breaks, and a byte order mark at the start of a line.  Tabs do
not count as blanks where a key may start. -/
def skipSpace : Nat → Lexer → Lexer
  | 0, l => l
  | fuel + 1, l =>
    let c := l.cursor
    let c := if c.column == 0 && c.peek? == some '\ufeff' then c.advance 1 else c
    let c := c.advanceWhile fun x => x == ' ' || (x == '\t' && (l.bracketed || !l.keyAllowed))
    let c := c.skipComment
    match c.nextLine? with
    | some (_, next) =>
      skipSpace fuel { l with cursor := next, keyAllowed := l.keyAllowed || !l.bracketed }
    | none => { l with cursor := c }

/-- A directive, with nothing but a comment behind it. -/
def directive? (l : Lexer) : Option Lexer := do
  let l ← l.closeAll?
  let (directive, rest) ← Directive.read? (l.cursor.rest.drop 1)
  let c := ((l.cursor.advanceTo rest).advanceWhile isBlank).skipComment
  guard (endsLine c.rest)
  some { l.push (.directive directive) with cursor := c }

/-- An opening bracket. -/
def openBracket? (l : Lexer) (t : Token) : Option Lexer := do
  let l ← l.propose?
  some { (l.push t).advance 1 with
    keyAllowed := true, candidate := none, outer := l.candidate :: l.outer }

/-- A closing bracket. -/
def closeBracket? (l : Lexer) (t : Token) : Option Lexer := do
  let l ← l.giveUp?
  let l := { (l.push t).advance 1 with keyAllowed := false }
  match l.outer with
  | k :: more => some { l with candidate := k, outer := more }
  | [] => some l

/-- A comma. -/
def comma? (l : Lexer) : Option Lexer := do
  let l ← l.giveUp?
  some { (l.push .comma).advance 1 with keyAllowed := true }

/-- The dash of an item. -/
def item? (l : Lexer) : Option Lexer := do
  guard (l.bracketed || l.keyAllowed)
  let l ← (l.indentTo l.cursor.column l.tokens.length .sequenceStart).giveUp?
  some { (l.push .item).advance 1 with keyAllowed := true }

/-- The mark before a key that is more than one line or word. -/
def key? (l : Lexer) : Option Lexer := do
  guard (l.bracketed || l.keyAllowed)
  let l ← (l.indentTo l.cursor.column l.tokens.length .mappingStart).giveUp?
  some { (l.push .key).advance 1 with keyAllowed := !l.bracketed }

/-- The colon before a value. -/
def value? (l : Lexer) : Option Lexer :=
  match l.candidate with
  | some k =>
    let l := { l with tokens := l.tokens.take k.tokens ++ Token.key :: l.tokens.drop k.tokens }
    let l := l.indentTo k.cursor.column k.tokens .mappingStart
    some { (l.push .value).advance 1 with keyAllowed := false, candidate := none }
  | none => do
    guard (l.bracketed || l.keyAllowed)
    let l := l.indentTo l.cursor.column l.tokens.length .mappingStart
    some { (l.push .value).advance 1 with keyAllowed := !l.bracketed }

/-- May the character stand directly behind a name? -/
def isNameEnd (c : Char) : Bool := ['?', ':', ',', ']', '\x7d', '%', '@', '\x60'].contains c

/-- A name for a value, or a reference to one. -/
def name? (l : Lexer) (make : String → Token) : Option Lexer := do
  let l ← l.propose?
  let name := (l.cursor.rest.drop 1).takeWhile isNameChar
  let l := (l.push (make (.ofList name))).advance (name.length + 1)
  guard (!name.isEmpty && (endsWord l.cursor.rest || l.cursor.peek?.any isNameEnd))
  some { l with keyAllowed := false }

/-- A tag. -/
def tag? (l : Lexer) : Option Lexer := do
  let l ← l.propose?
  let (mark, rest) ← tagMark? l.cursor.rest
  guard (endsWord rest || (l.bracketed && rest.head? == some ','))
  some { l.push (.tag mark) with cursor := l.cursor.advanceTo rest, keyAllowed := false }

/-- A scalar in quotes. -/
def quotedScalar? (l : Lexer) (mark : Char) : Option Lexer := do
  let l ← l.propose?
  let (text, next) ← quoted? mark l.cursor
  some { l.push (.scalar .quoted (.ofList text)) with cursor := next, keyAllowed := false }

/-- A scalar that is a block of lines. -/
def blockScalar? (l : Lexer) : Option Lexer := do
  let l ← l.giveUp?
  let (literal, text, next) ← block? l.indents.head? l.cursor
  let style := if literal then .literal else .quoted
  some { l.push (.scalar style (.ofList text)) with cursor := next, keyAllowed := true }

/-- A plain scalar. -/
def plainScalar? (l : Lexer) : Option Lexer := do
  let l ← l.propose?
  let margin := (l.indents.head?.map (· + 1)).getD 0
  let (text, broken, next) ← plain? l.bracketed margin l.cursor
  some { l.push (.scalar .plain (.ofList text)) with cursor := next, keyAllowed := broken }

/-- The next token, behind the space before it and at a character. -/
def token? (l : Lexer) (c : Char) (after : List Char) : Option Lexer :=
  if l.cursor.column == 0 && c == '%' then l.directive?
  else if l.cursor.startsMark "---".toList then
    l.closeAll?.map fun l => (l.push .documentStart).advance 3
  else if l.cursor.startsMark "...".toList then
    l.closeAll?.map fun l => (l.push .documentEnd).advance 3
  else
    match c with
    | '[' => l.openBracket? .openBracket
    | '\x7b' => l.openBracket? .openBrace
    | ']' => l.closeBracket? .closeBracket
    | '\x7d' => l.closeBracket? .closeBrace
    | ',' => l.comma?
    | '-' => if endsWord after then l.item? else l.plainScalar?
    | '?' => if l.bracketed || endsWord after then l.key? else l.plainScalar?
    | ':' => if l.bracketed || endsWord after then l.value? else l.plainScalar?
    | '*' => l.name? .reference
    | '&' => l.name? .anchor
    | '!' => l.tag?
    | '\'' => l.quotedScalar? '\''
    | '"' => l.quotedScalar? '"'
    | '|' => if l.bracketed then none else l.blockScalar?
    | '>' => if l.bracketed then none else l.blockScalar?
    | c => if ['%', '@', '\x60', '#', '\t'].contains c then none else l.plainScalar?

/-- All tokens.  Each step takes a character at least. -/
def run? : Nat → Lexer → Option (List Token)
  | 0, _ => none
  | fuel + 1, l => do
    let l := (skipSpace l.cursor.rest.length l)
    let l := (← l.dropStale?).dedent
    match l.cursor.rest with
    | [] => return (← l.closeAll?).tokens
    | c :: after => run? fuel (← l.token? c after)

end Lexer

/-- Characters that a text may hold. -/
def isAllowed (c : Char) : Bool :=
  c == '\t' || c == '\n' || c == '\r' || c == '\u0085' || (' ' ≤ c && c ≤ '~')
    || ('\u00a0' ≤ c && c != '\ufffe' && c != '\uffff')

/-- The tokens of a text. -/
def tokens? (text : String) : Option (List Token) :=
  let cs := text.toList
  if cs.all isAllowed then Lexer.run? (cs.length + 1) { cursor := ⟨cs, 0, 0, 0⟩ } else none

end CodeMend.Config.Yaml

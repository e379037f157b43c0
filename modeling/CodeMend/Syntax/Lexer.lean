import CodeMend.Syntax.Token
import CodeMend.Text.Blank
import CodeMend.Text.Letter

/-!
# The lexer

`lex` cuts a text into tokens that keep everything: blanks, line breaks, comments and directives
are tokens of their own, so the token texts concatenate to the input.  The last token is an empty
end of file.

Each `scan…` function takes the characters that are left and returns the stretch at their front
that makes up the token; `lexeme` chooses between them by the first characters.
-/

namespace CodeMend.Lexer

open Text

/-- A token before it has a place: its kind, its characters and what is wrong with it. -/
structure Lexeme where
  kind : Kind
  chars : List Char
  fault : Option String := none

/-- Is the character part of a line break? -/
def isLineBreak (c : Char) : Bool := c == '\n' || c == '\r'

/-- The rest of the line, without its line break. -/
def scanLine (cs : List Char) : List Char := cs.takeWhile (fun c => !isLineBreak c)

/-- Punctuation, longer spellings before their prefixes. -/
def punctuation : List (List Char × Kind) :=
  [(['?', '?', '='], .questionQuestionEq), (['<', '<', '='], .ltLtEq),
   (['?', '?'], .questionQuestion), (['?', '.'], .questionDot), (['=', '='], .eqEq),
   (['!', '='], .bangEq), (['<', '='], .ltEq), (['>', '='], .gtEq), (['&', '&'], .ampAmp),
   (['|', '|'], .pipePipe), (['<', '<'], .ltLt), (['+', '+'], .plusPlus),
   (['-', '-'], .minusMinus), (['+', '='], .plusEq), (['-', '='], .minusEq),
   (['*', '='], .starEq), (['/', '='], .slashEq), (['%', '='], .percentEq),
   (['&', '='], .ampEq), (['|', '='], .pipeEq), (['^', '='], .caretEq), (['=', '>'], .fatArrow),
   (['{'], .lBrace), (['}'], .rBrace), (['('], .lParen), ([')'], .rParen), (['['], .lBracket),
   ([']'], .rBracket), ([';'], .semicolon), ([','], .comma), (['.'], .dot), ([':'], .colon),
   (['?'], .question), (['='], .eq), (['<'], .lt), (['>'], .gt), (['+'], .plus), (['-'], .minus),
   (['*'], .star), (['/'], .slash), (['%'], .percent), (['!'], .bang), (['~'], .tilde),
   (['&'], .amp), (['|'], .pipe), (['^'], .caret)]

/-- Punctuation, or one character that fits nowhere. -/
def scanPunctuation (c : Char) (cs : List Char) : Lexeme :=
  match punctuation.find? (fun p => p.1.isPrefixOf (c :: cs)) with
  | some (chars, kind) => ⟨kind, chars, none⟩
  | none => ⟨.errorToken, [c], some ("Unexpected character '" ++ c.toString ++ "'")⟩

/-- The characters of a block comment behind its opening, and whether it is closed. -/
def scanComment : List Char → List Char × Bool
  | '*' :: '/' :: _ => (['*', '/'], true)
  | c :: cs => let (taken, closed) := scanComment cs; (c :: taken, closed)
  | [] => ([], false)

/-- The characters of a quoted literal behind its opening quote, and whether it is closed.  A
backslash takes the next character along, whatever it is; a line break ends the literal. -/
def scanQuoted (quote : Char) : List Char → List Char × Bool
  | [] => ([], false)
  | '\\' :: c :: cs => let (taken, closed) := scanQuoted quote cs; ('\\' :: c :: taken, closed)
  | c :: cs =>
    if c == quote then ([c], true)
    else if isLineBreak c then ([], false)
    else let (taken, closed) := scanQuoted quote cs; (c :: taken, closed)

/-- The characters of a verbatim string behind its opening quote, and whether it is closed.  A
doubled quote stands for one; nothing else is special. -/
def scanVerbatim : List Char → List Char × Bool
  | [] => ([], false)
  | '"' :: '"' :: cs => let (taken, closed) := scanVerbatim cs; ('"' :: '"' :: taken, closed)
  | '"' :: _ => (['"'], true)
  | c :: cs => let (taken, closed) := scanVerbatim cs; (c :: taken, closed)

/-- A string whose opening is the first `opening` characters. -/
def scanString (opening : Nat) (verbatim : Bool) (cs : List Char) : Lexeme :=
  let body := cs.drop opening
  let (taken, closed) := if verbatim then scanVerbatim body else scanQuoted '"' body
  ⟨.stringLiteral, cs.take opening ++ taken,
    if closed then none else some "Unterminated string literal"⟩

/-- A character literal. -/
def scanChar (cs : List Char) : Lexeme :=
  let (taken, closed) := scanQuoted '\'' (cs.drop 1)
  ⟨.charLiteral, cs.take 1 ++ taken, if closed then none else some "Unterminated character literal"⟩

/-- A digit or a separator between digits. -/
def isDigitOrGap (c : Char) : Bool := c.isDigit || c == '_'

/-- A hexadecimal digit. -/
def isHexDigit (c : Char) : Bool :=
  c.isDigit || ('a' ≤ c && c ≤ 'f') || ('A' ≤ c && c ≤ 'F')

/-- A fraction: a point with a digit behind it, and the digits that follow. -/
def scanFraction : List Char → List Char
  | '.' :: d :: cs => if d.isDigit then '.' :: (d :: cs).takeWhile isDigitOrGap else []
  | _ => []

/-- A sign, if there is one. -/
def scanSign : List Char → List Char
  | s :: _ => if s == '+' || s == '-' then [s] else []
  | [] => []

/-- An exponent: its mark, an optional sign and at least one digit. -/
def scanExponent : List Char → List Char
  | e :: cs =>
    if e == 'e' || e == 'E' then
      let sign := scanSign cs
      let digits := (cs.drop sign.length).takeWhile Char.isDigit
      if digits.isEmpty then [] else e :: (sign ++ digits)
    else []
  | [] => []

/-- Suffix letters that make a decimal literal a real number. -/
def isRealSuffix (c : Char) : Bool :=
  c == 'f' || c == 'F' || c == 'd' || c == 'D' || c == 'm' || c == 'M'

/-- Does the text start with a hexadecimal mark? -/
def startsHex : List Char → Bool
  | '0' :: x :: _ => x == 'x' || x == 'X'
  | _ => false

/-- A number with its suffix letters. -/
def scanNumber (cs : List Char) : Lexeme :=
  if startsHex cs then
    let digits := (cs.drop 2).takeWhile (fun c => isHexDigit c || c == '_')
    let suffix := (cs.drop (2 + digits.length)).takeWhile Char.isAlpha
    ⟨.intLiteral, cs.take 2 ++ digits ++ suffix, none⟩
  else
    let whole := cs.takeWhile isDigitOrGap
    let fraction := scanFraction (cs.drop whole.length)
    let digits := whole ++ fraction
    let exponent := scanExponent (cs.drop digits.length)
    let body := digits ++ exponent
    let suffix := (cs.drop body.length).takeWhile Char.isAlpha
    let real := !fraction.isEmpty || !exponent.isEmpty || suffix.any isRealSuffix
    ⟨if real then .realLiteral else .intLiteral, body ++ suffix, none⟩

/-- The kind of a directive, by the word behind its mark. -/
def directiveKind (line : List Char) : Kind :=
  match String.ofList ((trimStart line).takeWhile Char.isAlpha) with
  | "if" => .ifDirective
  | "elif" => .elifDirective
  | "else" => .elseDirective
  | "endif" => .endIfDirective
  | "region" => .regionDirective
  | "endregion" => .endRegionDirective
  | _ => .otherDirective

/-- A directive takes the rest of its line. -/
def scanDirective (cs : List Char) : Lexeme :=
  let line := scanLine cs
  ⟨directiveKind (line.drop 1), line, none⟩

/-- A line comment; three slashes, and not four, make it documentation. -/
def scanLineComment (cs : List Char) : Lexeme :=
  let doc := ['/', '/', '/'].isPrefixOf cs && !(['/', '/', '/', '/'].isPrefixOf cs)
  ⟨if doc then .docComment else .lineComment, scanLine cs, none⟩

/-- A block comment. -/
def scanBlockComment (cs : List Char) : Lexeme :=
  let (taken, closed) := scanComment (cs.drop 2)
  ⟨.blockComment, cs.take 2 ++ taken, if closed then none else some "Unterminated block comment"⟩

/-- A word: a keyword or an identifier. -/
def scanWord (cs : List Char) : Lexeme :=
  let word := cs.takeWhile isWordPart
  ⟨(keyword? (String.ofList word)).getD .ident, word, none⟩

/-- A line break: `\r\n` counts as one. -/
def scanNewline : List Char → Lexeme
  | '\r' :: '\n' :: _ => ⟨.newline, ['\r', '\n'], none⟩
  | cs => ⟨.newline, cs.take 1, none⟩

/-- The token at the front of `c :: cs`; `lineStart` says that only blanks stand before it on its
line. -/
def lexeme (lineStart : Bool) (c : Char) (cs : List Char) : Lexeme :=
  let all := c :: cs
  let second := cs.head?
  let third := (cs.drop 1).head?
  if isLineBreak c then scanNewline all
  else if isBlank c then
    ⟨.whitespace, all.takeWhile (fun d => isBlank d && !isLineBreak d), none⟩
  else if c == '#' && lineStart then scanDirective all
  else if c == '/' && second == some '/' then scanLineComment all
  else if c == '/' && second == some '*' then scanBlockComment all
  else if c.isDigit || (c == '.' && second.any Char.isDigit) then scanNumber all
  else if c == '"' then scanString 1 false all
  else if c == '@' && second == some '"' then scanString 2 true all
  else if c == '$' && second == some '"' then scanString 2 false all
  else if (c == '$' || c == '@') && (second == some '@' || second == some '$')
      && third == some '"' then scanString 3 true all
  else if c == '\'' then scanChar all
  else if isWordStart c then scanWord all
  else if c == '@' && second.any isWordStart then
    ⟨.ident, c :: cs.takeWhile isWordPart, none⟩
  else scanPunctuation c cs

/-- Is the next token first on its line, given the token before it? -/
def nextLineStart (lineStart : Bool) (kind : Kind) : Bool :=
  kind == .newline || (lineStart && kind == .whitespace)

/-- Cuts the characters from offset `start` on.  `fuel` bounds the number of tokens; every token has
a character, so the number of characters is enough. -/
def lexFrom : Nat → Bool → Nat → List Char → List Token × List SyntaxError
  | fuel + 1, lineStart, start, c :: cs =>
    let l := lexeme lineStart c cs
    let token : Token := ⟨l.kind, String.ofList l.chars, start⟩
    let (tokens, errors) := lexFrom fuel (nextLineStart lineStart l.kind) token.span.stop
      ((c :: cs).drop l.chars.length)
    (token :: tokens, (l.fault.map (⟨·, token.span⟩)).toList ++ errors)
  | _, _, start, _ => ([⟨.endOfFile, "", start⟩], [])

end CodeMend.Lexer

namespace CodeMend

/-- The tokens of a text and what is wrong with them. -/
def lex (text : String) : List Token × List SyntaxError :=
  let chars := text.toList
  Lexer.lexFrom chars.length true 0 chars

end CodeMend

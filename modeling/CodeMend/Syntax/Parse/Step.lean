import CodeMend.Syntax.Token
import CodeMend.Syntax.Tree

/-!
# Parsing steps

A `Parser` takes the tokens that are left and says which trees it builds, what it complains about
and what it leaves.  Steps only ever take tokens from the front and put each into the trees they
build, so nothing of the source is lost.

Trivia waits in the token list until the next node is started or the next token is taken, and then
goes into whatever is open at that moment (`flush`).  So a node starts with a significant token,
and looking ahead passes over trivia.
-/

namespace CodeMend.Parse

/-- What a step built, what it complained about and which tokens it left. -/
structure Step where
  built : List Tree
  errors : List SyntaxError
  rest : List Token
  /-- Did a bound on turns or on depth end the step before it was finished? -/
  cut : Bool

/-- A parsing step from the tokens that are left. -/
abbrev Parser := List Token → Step

/-- A test on the tokens that are left. -/
abbrev Look := List Token → Bool

/-! ## Looking ahead -/

/-- The tokens that are not trivia. -/
def significant (ts : List Token) : List Token := ts.filter (fun t => !t.kind.isTrivia)

/-- The kinds of the tokens that are not trivia. -/
def kinds (ts : List Token) : List Kind := (significant ts).map Token.kind

/-- The `n`-th kind ahead; behind the end there is only the end of the file. -/
def nth (n : Nat) (ts : List Token) : Kind := (kinds ts)[n]?.getD .endOfFile

/-- The kind of the next significant token. -/
def current (ts : List Token) : Kind := nth 0 ts

/-- Is the next significant token of kind `k`? -/
def ahead (k : Kind) : Look := fun ts => current ts == k

/-- Is the `n`-th significant token of kind `k`? -/
def aheadAt (n : Nat) (k : Kind) : Look := fun ts => nth n ts == k

/-- Is the input used up? -/
def atEnd : Look := ahead .endOfFile

/-- The text of the next significant token. -/
def currentText (ts : List Token) : String := ((significant ts).head?.map Token.text).getD ""

/-- The span of the next significant token. -/
def currentSpan (ts : List Token) : Span := ((significant ts).head?.map Token.span).getD default

/-! ## Steps -/

/-- Does nothing. -/
def done : Parser := fun ts => ⟨[], [], ts, false⟩

/-- Does nothing but put trees in place that are built already. -/
def emit (trees : List Tree) : Parser := fun ts => ⟨trees, [], ts, false⟩

/-- Gives up because a bound is reached. -/
def giveUp : Parser := fun ts => ⟨[], [], ts, true⟩

/-- One step after another. -/
def Step.andThen (s : Step) (p : Parser) : Step :=
  let t := p s.rest
  ⟨s.built ++ t.built, s.errors ++ t.errors, t.rest, s.cut || t.cut⟩

/-- The steps in order. -/
def all : List Parser → Parser
  | [] => done
  | p :: ps => fun ts => (p ts).andThen (all ps)

/-- `p` where the test holds, else `q`. -/
def either (look : Look) (p q : Parser) : Parser := fun ts => if look ts then p ts else q ts

/-- `p` where the test holds, else nothing. -/
def given (look : Look) (p : Parser) : Parser := either look p done

/-- The tree of a token. -/
def leaf (t : Token) : Tree := .token t.kind t.text

/-- Puts waiting trivia in place. -/
def flush : Parser := fun ts =>
  ⟨(ts.takeWhile (·.kind.isTrivia)).map leaf, [], ts.dropWhile (·.kind.isTrivia), false⟩

/-- Takes one token; the end of the file stays. -/
def take : Parser := fun ts =>
  match ts with
  | [] => done []
  | t :: rest => if t.kind == .endOfFile then done (t :: rest) else ⟨[leaf t], [], rest, false⟩

/-- Takes the next significant token along with the trivia before it. -/
def bump : Parser := all [flush, take]

/-- Complains about the next significant token. -/
def complain (message : String) : Parser := fun ts => ⟨[], [⟨message, currentSpan ts⟩], ts, false⟩

/-- Takes a token of kind `k` if it comes next. -/
def eat (k : Kind) : Parser := given (ahead k) bump

/-- Takes a token of kind `k`, or complains that it is missing. -/
def expect (k : Kind) : Parser := either (ahead k) bump (complain ("Expected " ++ k.label))

/-- Puts what a step builds under a node. -/
def under (k : Kind) (p : Parser) : Parser := fun ts =>
  let s := p ts
  ⟨[.node k s.built], s.errors, s.rest, s.cut⟩

/-- A node over the given steps; waiting trivia stays outside. -/
def node (k : Kind) (ps : List Parser) : Parser := all [flush, under k (all ps)]

/-- Complains, and puts the offending token under an error node unless it is the end. -/
def skip (message : String) : Parser :=
  either atEnd (complain message) (all [complain message, node .error [bump]])

/-- Did the step leave all its tokens, trivia included? -/
def stuck (before : List Token) (s : Step) : Bool := s.rest.length == before.length

/-- `p`, and `q` after it if `p` left all its tokens. -/
def orWhenStuck (p q : Parser) : Parser := fun ts =>
  let s := p ts
  if stuck ts s then s.andThen q else s

/-- `p`; if the test holds behind it, what `p` built becomes the start of a node that goes on with
the given steps. -/
def extendIf (p : Parser) (look : Look) (k : Kind) (ps : List Parser) : Parser := fun ts =>
  let s := p ts
  if look s.rest then
    let t := all ps s.rest
    ⟨[.node k (s.built ++ t.built)], s.errors ++ t.errors, t.rest, s.cut || t.cut⟩
  else s

/-! ## Loops -/

/-- One turn of a loop: a step, and whether the loop goes on. -/
structure Turn where
  step : Step
  again : Bool

/-- Turns while the test holds and each turn asks for another.  Every turn takes a token, so their
number bounds the loop; a loop that would go on at its bound is cut. -/
def turns (look : Look) (turn : List Token → Turn) : Nat → Parser
  | 0 => given look giveUp
  | n + 1 => fun ts =>
    if look ts then
      let t := turn ts
      if t.again then t.step.andThen (turns look turn n) else t.step
    else done ts

/-- A loop of turns. -/
def loop (look : Look) (turn : List Token → Turn) : Parser := fun ts =>
  turns look turn ts.length ts

/-- Repeats a step while the test holds. -/
def repeatWhile (look : Look) (p : Parser) : Parser := loop look (fun ts => ⟨p ts, true⟩)

/-- One item of a list and the comma behind it.  Without a comma, `missing` is told whether the
item was stuck and decides how to go on. -/
def commaTurn (item : Parser) (missing : Bool → List Token → Turn) : List Token → Turn := fun ts =>
  let s := item ts
  if ahead .comma s.rest then ⟨s.andThen bump, true⟩
  else
    let t := missing (stuck ts s) s.rest
    ⟨s.andThen (fun _ => t.step), t.again⟩

/-- Ends a loop. -/
def stop (p : Parser) : List Token → Turn := fun ts => ⟨p ts, false⟩

/-- Goes on with a loop. -/
def goOn (p : Parser) : List Token → Turn := fun ts => ⟨p ts, true⟩

/-- Items with commas between them, at least one. -/
def separated (item : Parser) : Parser :=
  loop (fun _ => true) (commaTurn item (fun _ => stop done))

/-- Wraps what is built so far while `pick` names a node to wrap it in and how that node goes on. -/
def wraps (pick : List Token → Option (Kind × List Parser)) : Nat → List Tree → Parser
  | 0, built => fun ts => ⟨built, [], ts, (pick ts).isSome⟩
  | n + 1, built => fun ts =>
    match pick ts with
    | none => emit built ts
    | some (k, ps) =>
      let s := all ps ts
      let t := wraps pick n [.node k (built ++ s.built)] s.rest
      ⟨t.built, s.errors ++ t.errors, t.rest, s.cut || t.cut⟩

/-- An operand, wrapped from the left as often as `pick` says. -/
def wrapped (operand : Parser) (pick : List Token → Option (Kind × List Parser)) : Parser := fun ts =>
  let s := operand ts
  let t := wraps pick s.rest.length s.built s.rest
  ⟨t.built, s.errors ++ t.errors, t.rest, s.cut || t.cut⟩

end CodeMend.Parse

import CodeMend.Proofs.Parser.Enumerations
import CodeMend.Proofs.Parser.Lossless

/-!
# Nodes over the same text

A node may cover the same text as one of its children.  `height` says how far above each other such
nodes stand: a child that has all tokens of its node stands lower (`Thin`).  A node with a token of its
own has no such child (`node_bump_fits`), and the few others are told apart by what stands right below them,
so the lemmas follow the grammar, one for each definition (`Fits`).

Therefore no node has the kind of a node above it with the same text (`parse_stepped`).
-/

namespace CodeMend

namespace Parse

open Tree

/-! ## Heights -/

/-- How far a node of a kind stands above the nodes that may have all its tokens. -/
def height : Kind → Nat
  | .compilationUnit => 6
  | .switchSection => 5
  | .argument | .expressionStatement => 4
  | .lambdaExpression | .localDeclarationStatement | .fieldDeclaration => 3
  | .parameterList | .variableDeclaration => 2
  | .parameter | .invocationExpression | .elementAccessExpression | .attributeSpec
  | .enumMemberDeclaration | .accessorDeclaration | .classDeclaration | .structDeclaration
  | .interfaceDeclaration | .enumDeclaration | .constructorDeclaration | .methodDeclaration
  | .propertyDeclaration | .error => 1
  | _ => 0

/-- The number of tokens in a row, without the end of the file. -/
def load (cs : List Tree) : Nat := (tokensAll cs).countP (·.1 != .endOfFile)

/-- An empty row has no tokens. -/
@[simp] theorem load_nil : load [] = 0 := rfl

/-- The tokens of two rows add up. -/
@[simp] theorem load_append (xs ys : List Tree) : load (xs ++ ys) = load xs + load ys := by
  rw [load, tokensAll_append, List.countP_append, load, load]

/-- The tokens of the first tree and those behind it add up. -/
theorem load_cons (c : Tree) (cs : List Tree) : load (c :: cs) = load [c] + load cs :=
  load_append [c] cs

/-- A node has the tokens of its children, so wrapping a row changes no count. -/
theorem load_node (k : Kind) (cs : List Tree) : load [.node k cs] = load cs := by
  simp [load, tokensAll, tokens]

/-- A tree of a row has no more tokens than the row. -/
theorem load_le {c : Tree} {cs : List Tree} (h : c ∈ cs) : load [c] ≤ load cs := by
  obtain ⟨before, after, rfl⟩ := List.append_of_mem h
  rw [load_append, load_cons c after]
  omega

/-- Nodes in a row stand lower than `h`. -/
def Low (h : Nat) (cs : List Tree) : Prop := ∀ c ∈ cs, c.isNode = true → height c.kind < h

/-- A node in a row that has all its tokens stands lower than `h`. -/
def Thin (h : Nat) (cs : List Tree) : Prop :=
  ∀ c ∈ cs, c.isNode = true → 0 < load [c] → load [c] = load cs → height c.kind < h

/-- A child with all the tokens of its node stands lower. -/
abbrev Stepped (k : Kind) (cs : List Tree) : Prop := Thin (height k) cs

section Rows

variable {h h' : Nat} {xs ys cs : List Tree}

/-- Nodes that stand lower than `h` stand lower than anything above `h`. -/
theorem Low.mono (hxs : Low h xs) (hle : h ≤ h') : Low h' xs := fun c hc hnode =>
  Nat.lt_of_lt_of_le (hxs c hc hnode) hle

/-- Two rows of low nodes make one. -/
theorem Low.append (hxs : Low h xs) (hys : Low h ys) : Low h (xs ++ ys) :=
  List.forall_mem_append.2 ⟨hxs, hys⟩

/-- A row without nodes is low for every height. -/
theorem low_of_tokens (hcs : ∀ c ∈ cs, c.isNode = false) : Low h cs := by
  intro c hc hnode
  rw [hcs c hc] at hnode
  cases hnode

/-- Where all nodes stand lower, so does the one that might have all the tokens. -/
theorem Low.thin (hcs : Low h cs) : Thin h cs := fun c hc hnode _ _ => hcs c hc hnode

/-- A row without tokens has no child to speak of. -/
theorem thin_of_idle (hcs : load cs = 0) : Thin h cs := by
  intro c _ _ hpos hall
  omega

/-- A node has not all tokens of a row with a token of its own. -/
theorem thin_of_token {t : Tree} (ht : t ∈ cs) (htoken : t.isNode = false) (hpos : 0 < load [t]) :
    Thin h cs := by
  intro c hc hnode _ hall
  obtain ⟨before, after, rfl⟩ := List.append_of_mem ht
  rw [load_append, load_cons t after] at hall
  rcases List.mem_append.1 hc with hc | hc
  · have := load_le hc
    omega
  · rcases List.mem_cons.1 hc with rfl | hc
    · rw [htoken] at hnode
      cases hnode
    · have := load_le hc
      omega

/-- Before a thin row only low nodes matter: one of the row behind that has all tokens of both
has all of its own row. -/
theorem Low.append_thin (hxs : Low h xs) (hys : Thin h ys) : Thin h (xs ++ ys) := by
  intro c hc hnode hpos hall
  rw [load_append] at hall
  rcases List.mem_append.1 hc with hc | hc
  · exact hxs c hc hnode
  · have := load_le hc
    exact hys c hc hnode hpos (by omega)

/-- Behind tokens nothing has all the tokens. -/
theorem Low.thin_append (hxs : Low h xs) (hpos : 0 < load xs) : Thin h (xs ++ ys) := by
  intro c hc hnode _ hall
  rw [load_append] at hall
  rcases List.mem_append.1 hc with hc | hc
  · exact hxs c hc hnode
  · have := load_le hc
    omega

/-- Before tokens nothing has all the tokens. -/
theorem Low.append_thin_of_pos (hys : Low h ys) (hpos : 0 < load ys) : Thin h (xs ++ ys) := by
  intro c hc hnode _ hall
  rw [load_append] at hall
  rcases List.mem_append.1 hc with hc | hc
  · have := load_le hc
    omega
  · exact hys c hc hnode

end Rows

/-! ## Steps -/

/-- Nothing is left but the end of the file. -/
def Over (ts : List Token) : Prop := ∀ t ∈ ts.head?, t.kind = .endOfFile

/-- What a step builds from `ts`: below each node stands what should, and at the end of the file no
token is taken. -/
structure Step.Fits (ts : List Token) (s : Step) : Prop where
  nodes : EveryNodeAmong Stepped s.built
  idle : Over ts → Over s.rest ∧ load s.built = 0

/-- A parser that looks ahead and sees a token is not at the end. -/
theorem not_over {ts : List Token} (hend : atEnd ts = false) : ¬ Over ts := by
  intro hover
  cases ts with
  | nil => cases hend
  | cons t ts =>
      have hkind : t.kind = .endOfFile := hover t rfl
      simp [atEnd, ahead, current, nth, kinds, significant, hkind,
        show Kind.endOfFile.isTrivia = false from rfl] at hend

/-- A parser whose steps do. -/
def Fits (p : Parser) : Prop := ∀ ts, (p ts).Fits ts

/-- A parser for what stands right below a node of height `n`. -/
structure Below (n : Nat) (p : Parser) : Prop where
  fits : Fits p
  thin : ∀ ts, Thin n (p ts).built

/-- A parser that builds nodes lower than `h`. -/
def Lowers (h : Nat) (p : Parser) : Prop := ∀ ts, Low h (p ts).built

section Combinators

variable {h h' n : Nat} {p q : Parser} {ps : List Parser} {ts : List Token} {s : Step} {k : Kind}
  {look : Look}

/-! ### What fits -/

/-- A step that builds nothing and takes nothing. -/
theorem fits_of_idle (errors : List SyntaxError) (cut : Bool) : Step.Fits ts ⟨[], errors, ts, cut⟩ :=
  ⟨trivial, fun hover => ⟨hover, rfl⟩⟩

/-- Doing nothing fits. -/
theorem done_fits : Fits done := fun _ => fits_of_idle _ _

/-- A complaint builds nothing. -/
theorem complain_fits (message : String) : Fits (complain message) := fun _ => fits_of_idle _ _

/-- Two steps that fit, one behind the other, fit: the second starts over if the first one did
and took nothing. -/
theorem Step.Fits.andThen (hs : s.Fits ts) (hp : (p s.rest).Fits s.rest) : (s.andThen p).Fits ts where
  nodes := everyNodeAmong_append.2 ⟨hs.nodes, hp.nodes⟩
  idle := by
    intro hover
    obtain ⟨hrest, hs⟩ := hs.idle hover
    obtain ⟨hrest, hp⟩ := hp.idle hrest
    exact ⟨hrest, by simp [Step.andThen, hs, hp]⟩

/-- No parsers at all fit. -/
theorem Fits.nil : Fits (all []) := done_fits

/-- Parsers one after another fit if each does. -/
theorem Fits.cons (hp : Fits p) (hps : Fits (all ps)) : Fits (all (p :: ps)) := fun ts =>
  (hp ts).andThen (hps _)

/-- Leaves stand below no node and are none. -/
theorem fits_of_leaves {tokens rest : List Token} (hidle : Over ts → Over rest ∧ tokens = []) :
    Step.Fits ts ⟨tokens.map leaf, [], rest, false⟩ where
  nodes := everyNodeAmong_leaves _ tokens
  idle := fun hover => ⟨(hidle hover).1, by rw [(hidle hover).2]; rfl⟩

/-- White space moved into the tree is a row of leaves, and there is none at the end of the
file. -/
theorem flush_fits : Fits flush := by
  intro ts
  refine fits_of_leaves fun hover => ?_
  cases ts with
  | nil => exact ⟨hover, rfl⟩
  | cons t ts =>
      have hkind : t.kind.isTrivia = false := by rw [hover t rfl]; rfl
      simp [hkind, hover]

/-- A token taken is one leaf, and the end of the file is not taken. -/
theorem take_fits : Fits take := by
  intro ts
  unfold take
  split
  · exact fits_of_idle _ _
  · next t rest =>
    split
    · exact fits_of_idle _ _
    · next hkind =>
      have hidle : Over (t :: rest) → Over rest ∧ [t] = [] := fun hover =>
        absurd (hover t rfl) (by simpa using hkind)
      exact fits_of_leaves hidle

/-- The next token with the white space before it fits. -/
theorem bump_fits : Fits bump := .cons flush_fits (.cons take_fits .nil)

/-- Either of two parsers fits, whichever the lookahead picks. -/
theorem Fits.either (hp : Fits p) (hq : Fits q) : Fits (either look p q) := by
  intro ts
  unfold Parse.either
  split
  · exact hp ts
  · exact hq ts

/-- An optional part fits. -/
theorem Fits.given (hp : Fits p) : Fits (given look p) := hp.either done_fits

/-- A token that may be missing fits. -/
theorem eat_fits (k : Kind) : Fits (eat k) := bump_fits.given

/-- A token that is complained about when it is missing fits. -/
theorem expect_fits (k : Kind) : Fits (expect k) := bump_fits.either (complain_fits _)

/-- A fallback for a parser that takes nothing fits. -/
theorem orWhenStuck_fits (hp : Fits p) (hq : Fits q) : Fits (orWhenStuck p q) := by
  intro ts
  unfold orWhenStuck
  dsimp only
  split
  · exact (hp ts).andThen (hq _)
  · exact hp ts

/-- A node fits over what fits, when the child that has all the tokens stands lower than it. -/
theorem under_fits (hp : (p ts).Fits ts) (hthin : Thin (height k) (p ts).built) :
    (under k p ts).Fits ts where
  nodes := ⟨⟨hthin, hp.nodes⟩, trivial⟩
  idle := fun hover => ⟨(hp.idle hover).1, (load_node k _).trans (hp.idle hover).2⟩

/-- A node fits when its children are thin below it; the white space before it stays outside. -/
theorem node_fits (hps : Below (height k) (all ps)) : Fits (node k ps) :=
  .cons flush_fits (.cons (fun ts => under_fits (hps.fits ts) (hps.thin ts)) .nil)

/-- Low children of a node are thin below it. -/
theorem Lowers.below (hp : Lowers n p) (hfits : Fits p) : Below n p := ⟨hfits, fun ts => (hp ts).thin⟩

/-- What stands below a node stands lower. -/
theorem node_fits_of_low (hps : Fits (all ps)) (hlow : Lowers (height k) (all ps)) :
    Fits (node k ps) := node_fits (hlow.below hps)

/-- The next token is taken, or the trivia before the end of the file, if there is anything. -/
theorem bump_taken (ts : List Token) :
    (∃ t ∈ (bump ts).built, t.isNode = false ∧ 0 < load [t]) ∨ Over ts := by
  cases ts with
  | nil => exact Or.inr fun t ht => by cases ht
  | cons t rest =>
      by_cases hover : t.kind = .endOfFile
      · exact Or.inr fun u hu => by rwa [← Option.some.inj hu]
      · refine Or.inl ⟨leaf t, ?_, rfl, by simp [load, tokensAll, leaf, tokens, hover]⟩
        show leaf t ∈ (all [flush, take] (t :: rest)).built
        rw [all_pair]
        cases htrivia : t.kind.isTrivia with
        | true => exact List.mem_append_left _ (by simp [flush, htrivia])
        | false => exact List.mem_append_right _ (by simp [flush, htrivia, take, hover])

/-- What starts with the next token, if there is any, has a token right below the node. -/
theorem bump_below (hps : Fits (all ps)) : Below n (all (bump :: ps)) := by
  refine ⟨.cons bump_fits hps, fun ts => ?_⟩
  rcases bump_taken ts with ⟨t, ht, htoken, hpos⟩ | hover
  · exact thin_of_token (List.mem_append_left _ ht) htoken hpos
  · exact thin_of_idle ((Fits.cons bump_fits hps ts).idle hover).2

/-- What builds low nodes may stand in front of what is thin. -/
theorem Below.cons (hp : Fits p) (hlow : Lowers n p) (hps : Below n (all ps)) :
    Below n (all (p :: ps)) :=
  ⟨.cons hp hps.fits, fun ts => (hlow ts).append_thin (hps.thin _)⟩

/-- A node with a token of its own. -/
theorem node_bump_fits (hps : Fits (all ps)) : Fits (node k (bump :: ps)) := node_fits (bump_below hps)

/-- A token skipped as an error has a node for itself. -/
theorem skip_fits (message : String) : Fits (skip message) :=
  (complain_fits message).either (.cons (complain_fits message) (.cons (node_bump_fits .nil) .nil))

/-- A loop fits if each of its turns does, by induction on the turns that are left. -/
theorem turns_fits {turn : List Token → Turn}
    (hturn : ∀ ts, look ts = true → (turn ts).step.Fits ts) (m : Nat) : Fits (turns look turn m) := by
  induction m with
  | zero =>
      intro ts
      unfold turns Parse.given Parse.either
      split <;> exact fits_of_idle _ _
  | succ m ih =>
      intro ts
      unfold turns
      split
      · next hlook =>
        dsimp only
        split
        · exact (hturn ts hlook).andThen (ih _)
        · exact hturn ts hlook
      · exact fits_of_idle _ _

/-- The same for the loop as the parser runs it, with a turn for every token. -/
theorem loop_fits {turn : List Token → Turn}
    (hturn : ∀ ts, look ts = true → (turn ts).step.Fits ts) : Fits (loop look turn) :=
  fun ts => turns_fits hturn ts.length ts

/-- Repeating what fits fits. -/
theorem Fits.repeat (hp : Fits p) : Fits (repeatWhile look p) := loop_fits fun ts _ => hp ts

/-- One turn of a list separated by commas fits, with whatever follows a missing comma. -/
theorem commaTurn_fits {missing : Bool → List Token → Turn} (hp : Fits p)
    (hmissing : ∀ stuck us, (missing stuck us).step.Fits us) (ts : List Token) :
    (commaTurn p missing ts).step.Fits ts := by
  unfold commaTurn
  dsimp only
  split
  · exact (hp ts).andThen (bump_fits _)
  · exact (hp ts).andThen (p := fun _ => (missing _ (p ts).rest).step) (hmissing _ _)

/-- A list that ends at its first missing comma fits. -/
theorem Fits.items (hp : Fits p) : Fits (loop look (commaTurn p (fun _ => stop done))) :=
  loop_fits fun ts _ => commaTurn_fits hp (fun _ _ => fits_of_idle _ _) ts

/-- Items separated by commas fit. -/
theorem Fits.separated (hp : Fits p) : Fits (separated p) := hp.items

/-- Behind what is built, where a token is left. -/
theorem thin_behind (hover : ¬ Over ts) (before : List Tree) :
    Thin n (before ++ (all (bump :: ps) ts).built) := by
  obtain ⟨t, ht, htoken, hpos⟩ := (bump_taken ts).resolve_right hover
  exact thin_of_token (List.mem_append_right _ (List.mem_append_left _ ht)) htoken hpos

/-- A node that starts with its own token is not empty where a token is left, trivia included. -/
theorem load_node_bump (hover : ¬ Over ts) : 0 < load (node k (bump :: ps) ts).built := by
  rw [node, all_pair]
  show 0 < load ((flush ts).built ++ [.node k ((bump (flush ts).rest).built ++ _)])
  rw [load_append, load_node, load_append]
  rcases bump_taken (flush ts).rest with ⟨t, ht, -, hpos⟩ | hrest
  · have := load_le ht
    omega
  · cases ts with
    | nil => exact absurd hrest hover
    | cons t ts =>
        cases htrivia : t.kind.isTrivia with
        | false => simp [flush, htrivia, hover] at hrest
        | true =>
            have hleaf : leaf t ∈ (flush (t :: ts)).built := by simp [flush, htrivia]
            have hpos : 0 < load [leaf t] := by
              have hkind : t.kind ≠ .endOfFile := fun h => by rw [h] at htrivia; cases htrivia
              simp [load, tokensAll, leaf, tokens, hkind]
            have := load_le hleaf
            omega

/-- A node put around what is built, when an operator follows, has that operator as a token of
its own. -/
theorem extendIf_fits (hlook : ∀ ts, look ts = true → atEnd ts = false) (hp : Fits p)
    (hps : Fits (all ps)) : Fits (extendIf p look k (bump :: ps)) := by
  intro ts
  unfold extendIf
  dsimp only
  split
  · next htest =>
    have hall := (hp ts).andThen (p := all (bump :: ps)) (Fits.cons bump_fits hps _)
    exact under_fits (p := fun ts => (p ts).andThen (all (bump :: ps))) hall
      (thin_behind (not_over (hlook _ htest)) _)
  · exact hp ts

/-- Wrapping what is built over and over fits when each wrapping does. Nothing wraps at the end
of the file, so there the row is the one of the first parser. -/
theorem wrapped_fits {pick : List Token → Option (Kind × List Parser)} (hp : Fits p)
    (hpick : ∀ ts k ps, pick ts = some (k, ps) → ¬ Over ts ∧ Fits (all ps) ∧
      ∀ before, Thin (height k) (before ++ (all ps ts).built)) : Fits (wrapped p pick) := by
  have hnodes (m : Nat) (built : List Tree) (us : List Token)
      (hbuilt : EveryNodeAmong Stepped built) :
      EveryNodeAmong Stepped (wraps pick m built us).built := by
    induction m generalizing built us with
    | zero => exact hbuilt
    | succ m ih =>
        cases hus : pick us with
        | none => simpa only [wraps, hus, emit] using hbuilt
        | some found =>
            obtain ⟨k, ps⟩ := found
            obtain ⟨-, hps, hthin⟩ := hpick us k ps hus
            simp only [wraps, hus]
            exact ih _ _ (everyNode_enclose (hthin built) hbuilt (hps us).nodes)
  intro ts
  refine ⟨hnodes _ _ _ (hp ts).nodes, fun hover => ?_⟩
  obtain ⟨hrest, hload⟩ := (hp ts).idle hover
  have hnone : pick (p ts).rest = none := by
    cases hus : pick (p ts).rest with
    | none => rfl
    | some found => exact absurd hrest (hpick _ found.1 found.2 hus).1
  have hwraps : ∀ m, (wraps pick m (p ts).built (p ts).rest).rest = (p ts).rest ∧
      (wraps pick m (p ts).built (p ts).rest).built = (p ts).built := by
    intro m
    cases m <;> simp [wraps, hnone, emit]
  rw [wrapped]
  dsimp only
  rw [(hwraps _).1, (hwraps _).2]
  exact ⟨hrest, hload⟩

/-! ### What is low -/

/-- A bound on the heights may be raised. -/
theorem Lowers.mono (hp : Lowers h p) (hle : h ≤ h') : Lowers h' p := fun ts => (hp ts).mono hle

/-- No parsers build no nodes. -/
theorem Lowers.nil : Lowers h (all []) := fun _ _ hc => nomatch hc

/-- A complaint builds no nodes. -/
theorem complain_lowers (message : String) : Lowers h (complain message) := fun _ _ hc => nomatch hc

/-- Parsers one after another build low nodes if each does. -/
theorem Lowers.cons (hp : Lowers h p) (hps : Lowers h (all ps)) : Lowers h (all (p :: ps)) :=
  fun ts => (hp ts).append (hps _)

/-- Taking a token builds no nodes. -/
theorem bump_lowers : Lowers h bump := fun ts => low_of_tokens (bump_tokens ts)

/-- White space in front adds no nodes. -/
theorem Lowers.flushed (hp : Lowers h p) : Lowers h (all [flush, p]) :=
  .cons (fun ts => low_of_tokens (flush_tokens ts)) (.cons hp .nil)

/-- Either of two parsers builds low nodes. -/
theorem Lowers.either (hp : Lowers h p) (hq : Lowers h q) : Lowers h (either look p q) := by
  intro ts
  unfold Parse.either
  split
  · exact hp ts
  · exact hq ts

/-- An optional part builds low nodes. -/
theorem Lowers.given (hp : Lowers h p) : Lowers h (given look p) := hp.either .nil

/-- An expected token is no node, and neither is the complaint about it. -/
theorem expect_lowers (k : Kind) : Lowers h (expect k) := bump_lowers.either (complain_lowers _)

/-- A node is as high as its kind. -/
theorem under_lowers (hk : height k < h) : Lowers h (under k p) := by
  intro ts c hc _
  rw [List.mem_singleton.1 hc]
  exact hk

/-- A node with white space before it is as high as its kind. -/
theorem node_lowers (hk : height k < h) : Lowers h (node k ps) := (under_lowers hk).flushed

/-- A fallback builds low nodes if it and what it stands in for do. -/
theorem orWhenStuck_lowers (hp : Lowers h p) (hq : Lowers h q) : Lowers h (orWhenStuck p q) := by
  intro ts
  unfold orWhenStuck
  dsimp only
  split
  · exact (hp ts).append (hq _)
  · exact hp ts

/-- A skipped token stands in an error node, of height one. -/
theorem skip_lowers (message : String) : Lowers 2 (skip message) :=
  (complain_lowers message).either
    (.cons (complain_lowers message) (.cons (node_lowers (by decide)) .nil))

/-- A loop builds low nodes if every turn does. -/
theorem loop_lowers {turn : List Token → Turn} (hturn : ∀ ts, Low h (turn ts).step.built) :
    Lowers h (loop look turn) := fun ts =>
  turns_built (G := fun _ _ => True) (fun _ => ⟨trivial, trivial⟩) (Q := Low h) (fun _ hc => nomatch hc)
    (fun _ _ => Low.append) (fun us _ _ => hturn us) _ ts trivial

/-- Repeating a parser adds no higher nodes. -/
theorem Lowers.repeat (hp : Lowers h p) : Lowers h (repeatWhile look p) := loop_lowers hp

/-- Commas between the items are no nodes. -/
theorem Lowers.separated (hp : Lowers h p) : Lowers h (separated p) := by
  refine loop_lowers fun ts => ?_
  unfold commaTurn
  dsimp only
  split
  · exact (hp ts).append (bump_lowers _)
  · exact (hp ts).append fun _ hc => nomatch hc

/-- What may be put into a node is as high as itself or as that node. -/
theorem extendIf_lowers (hp : Lowers h p) (hk : height k < h) : Lowers h (extendIf p look k ps) := by
  intro ts
  unfold extendIf
  dsimp only
  split
  · intro c hc _
    rw [List.mem_singleton.1 hc]
    exact hk
  · exact hp ts

/-- Wrapping gives nodes of the picked kinds, around the ones of the first parser. -/
theorem wrapped_lowers {pick : List Token → Option (Kind × List Parser)} (hp : Lowers h p)
    (hpick : ∀ ts k ps, pick ts = some (k, ps) → height k < h) : Lowers h (wrapped p pick) := by
  have hwraps (m : Nat) (built : List Tree) (us : List Token) (hbuilt : Low h built) :
      Low h (wraps pick m built us).built := by
    induction m generalizing built us with
    | zero => exact hbuilt
    | succ m ih =>
        cases hus : pick us with
        | none => simpa only [wraps, hus, emit] using hbuilt
        | some found =>
            obtain ⟨k, ps⟩ := found
            simp only [wraps, hus]
            refine ih _ _ fun c hc _ => ?_
            rw [List.mem_singleton.1 hc]
            exact hpick us k ps hus
  exact fun ts => hwraps _ _ _ (hp ts)

end Combinators

/-! ## The grammar -/

/-- What the rules promise to the definitions that refer to them. -/
structure Levels (inner : Rule → Parser) : Prop where
  fits : ∀ r, Fits (inner r)
  type : Lowers 1 (inner .type)
  unary : Lowers 4 (inner .unary)
  binary : ∀ level, Lowers 4 (inner (.binary level))
  expression : Lowers 4 (inner .expression)
  statement : Lowers 5 (inner .statement)
  member : ∀ enclosing, Lowers 5 (inner (.member enclosing))

section Grammar

variable {self : Rule → Parser} (hs : Levels self)

/-! ### Names, types and arguments -/

/-- A name is a node of tokens. -/
theorem name_fits : Fits name :=
  (node_bump_fits (.cons (Fits.repeat (.cons bump_fits (.cons bump_fits .nil))) .nil)).either
    (complain_fits _)

include hs

/-- Type arguments start with their bracket. -/
theorem typeArguments_fits : Fits (typeArguments self) :=
  node_bump_fits (.cons (hs.fits .type).separated (.cons (expect_fits _) .nil))

omit hs in
/-- The brackets of an array type are tokens. -/
theorem rank_fits : Fits rank :=
  .cons bump_fits (.cons bump_fits.repeat (.cons (expect_fits _) .nil))

/-- Type arguments and dotted names may follow a name, in every order. -/
theorem typeNameTail_fits : Fits (typeNameTail self) := by
  refine loop_fits fun ts _ => ?_
  dsimp only
  split
  · exact ((typeArguments_fits hs).given ts).andThen (Fits.cons bump_fits (.cons bump_fits .nil) _)
  · exact (typeArguments_fits hs).given ts

/-- A type starts with a token: a name or a predefined one. -/
theorem typePhrase_fits : Fits (typePhrase self) := by
  have hranks : Fits (repeatWhile (fun ts =>
      ahead .lBracket ts && (aheadAt 1 .rBracket ts || aheadAt 1 .comma ts)) rank) :=
    rank_fits.repeat
  have hsuffix := Fits.cons (eat_fits .question) (.cons hranks .nil)
  exact (node_bump_fits (.cons (typeNameTail_fits hs) (.cons hsuffix .nil))).either
    ((node_bump_fits (.cons hsuffix .nil)).either (complain_fits _))

/-- An argument may have no token but those of its expression, which stands lower. -/
theorem argument_fits : Fits (argument self) := by
  refine node_fits_of_low (.cons (fun ts => ?_) (.cons (hs.fits .expression) .nil))
    (.cons (fun ts => ?_) (.cons hs.expression .nil))
  · split
    · exact Fits.cons bump_fits (.cons bump_fits .nil) ts
    · exact Fits.given (.cons bump_fits (.cons (hs.fits .type).given .nil)) ts
  · split
    · exact Lowers.cons bump_lowers (.cons bump_lowers .nil) ts
    · exact Lowers.given (.cons bump_lowers (.cons (hs.type.mono (by decide)).given .nil)) ts

/-- The arguments up to a closing bracket fit. -/
theorem arguments_fits (closing : Kind) : Fits (arguments self closing) := by
  refine loop_fits fun ts _ => ?_
  split
  · exact commaTurn_fits (argument_fits hs) (fun _ _ => fits_of_idle _ _) ts
  · exact complain_fits _ ts

/-- Arguments start with their parenthesis. -/
theorem argumentList_fits : Fits (argumentList self) :=
  node_bump_fits (.cons (arguments_fits hs _) (.cons (expect_fits _) .nil))

/-- The arguments of an element access start with their bracket. -/
theorem bracketedArgumentList_fits : Fits (bracketedArgumentList self) :=
  node_bump_fits (.cons (arguments_fits hs _) (.cons (expect_fits _) .nil))

/-- Attributes start with their bracket. A single attribute may be nothing but a name, which
stands lower. -/
theorem attributeList_fits : Fits (attributeList self) := by
  have hname : Lowers 1 name := (node_lowers (by decide)).either (complain_lowers _)
  have hspec : Fits (node .attributeSpec [name, given (ahead .lParen) (argumentList self)]) :=
    node_fits_of_low (.cons name_fits (.cons (argumentList_fits hs).given .nil))
      (.cons hname (.cons (Lowers.given (node_lowers (by decide))) .nil))
  exact node_bump_fits (.cons (hspec.either (complain_fits _)).separated
    (.cons (expect_fits _) .nil))

/-- The attributes before a declaration fit. -/
theorem attributeLists_fits : Fits (attributeLists self) := (attributeList_fits hs).repeat

/-! ### Expressions -/

/-- An initializer starts with its brace; what is no expression in it is skipped. -/
theorem initializer_fits : Fits (initializer self) := by
  refine node_bump_fits (.cons (loop_fits fun ts _ => ?_) (.cons (expect_fits _) .nil))
  refine commaTurn_fits (hs.fits .expression) (fun stuck us => ?_) ts
  cases stuck with
  | true => exact skip_fits _ us
  | false => exact done_fits us

/-- The word `new` is a token of its node, whatever follows. -/
theorem objectCreation_fits : Fits (objectCreation self) :=
  node_bump_fits (.cons (hs.fits .type).given (.cons (bracketedArgumentList_fits hs).given
    (.cons (argumentList_fits hs).given (.cons (initializer_fits hs).given .nil))))

/-- Every form of a primary expression starts with a token of its own, or is the type it names.
-/
theorem primary_fits {k : Kind} {p : Parser} (hp : primary? self k = some p) :
    Fits p ∧ Lowers 1 p := by
  unfold primary? at hp
  split at hp
  · obtain rfl := Option.some.inj hp
    exact ⟨node_bump_fits .nil, node_lowers (by decide)⟩
  split at hp
  · obtain rfl := Option.some.inj hp
    exact ⟨hs.fits .type, hs.type⟩
  split at hp <;> cases hp <;> refine ⟨?_, node_lowers (by decide)⟩
  · exact node_bump_fits .nil
  · exact node_bump_fits .nil
  · exact node_bump_fits .nil
  · exact node_bump_fits (.cons (hs.fits .expression) (.cons (expect_fits _) .nil))
  · exact objectCreation_fits hs
  · exact node_bump_fits (.cons (expect_fits _) (.cons (hs.fits .type) (.cons (expect_fits _) .nil)))
  · exact node_bump_fits (.cons (Fits.given (.cons bump_fits (.cons (hs.fits .type)
      (.cons (expect_fits _) .nil)))) .nil)
  · exact initializer_fits hs

/-- What makes a suffix of an expression: a member name or an operator is a token behind it, an
argument list is a lower node with a token. So the expression before it does not have all the
tokens. -/
theorem suffix_fits {ts : List Token} {k : Kind} {ps : List Parser}
    (hpick : suffix? self ts = some (k, ps)) : (¬ Over ts ∧ Fits (all ps) ∧
      ∀ before, Thin (height k) (before ++ (all ps ts).built)) ∧ height k < 2 := by
  have hover : ¬ Over ts := by
    refine not_over (not_atEnd_of_current (k := current ts) (fun h => ?_) rfl)
    rw [suffix?, h] at hpick
    cases hpick
  -- the arguments have a bracket, so the node they belong to has no child with all the tokens
  have hlist {k l : Kind} {ps : List Parser} (hk : height l < height k) (before : List Tree) :
      Thin (height k) (before ++ (all [node l (bump :: ps)] ts).built) := by
    rw [all_single]
    exact Low.append_thin_of_pos (node_lowers hk ts) (load_node_bump hover)
  have hname : Fits (either (ahead .ident) identifierName (complain "Expected a member name")) :=
    (node_bump_fits .nil).either (complain_fits _)
  unfold suffix? at hpick
  split at hpick <;> cases hpick <;> refine ⟨⟨hover, ?_, ?_⟩, by decide⟩
  · exact .cons bump_fits (.cons hname .nil)
  · exact thin_behind hover
  · exact .cons bump_fits (.cons hname .nil)
  · exact thin_behind hover
  · exact .cons (argumentList_fits hs) .nil
  · exact hlist (by decide)
  · exact .cons (bracketedArgumentList_fits hs) .nil
  · exact hlist (by decide)
  · exact .cons bump_fits .nil
  · exact thin_behind hover
  · exact .cons bump_fits .nil
  · exact thin_behind hover

/-- An expression with its suffixes fits and is at most as high as an invocation. -/
theorem suffixPhrase_fits : Fits (suffixPhrase self) ∧ Lowers 2 (suffixPhrase self) := by
  refine ⟨.cons flush_fits (.cons (fun ts => ?_) .nil), Lowers.flushed fun ts => ?_⟩
  · split
    · next p hp =>
      exact wrapped_fits (primary_fits hs hp).1 (fun us k ps hpick => (suffix_fits hs hpick).1) ts
    · exact complain_fits _ ts
  · split
    · next p hp =>
      have hlow : Lowers 2 p := (primary_fits hs hp).2.mono (by decide)
      exact wrapped_lowers hlow (fun us k ps hpick => (suffix_fits hs hpick).2) ts
    · exact complain_lowers _ ts

/-- A prefix operator is a token of its node. -/
theorem unaryPhrase_fits : Fits (unaryPhrase self) ∧ Lowers 2 (unaryPhrase self) :=
  ⟨Fits.either (node_bump_fits (.cons (hs.fits .unary) .nil)) (suffixPhrase_fits hs).1,
    Lowers.either (node_lowers (by decide)) (suffixPhrase_fits hs).2⟩

/-- Every operator of a binary expression is a token of its node, between the operands. -/
theorem binary_fits {level : Nat} {ts : List Token} {k : Kind} {ps : List Parser}
    (hpick : binary? self level ts = some (k, ps)) : (¬ Over ts ∧ Fits (all ps) ∧
      ∀ before, Thin (height k) (before ++ (all ps ts).built)) ∧ height k < 4 := by
  unfold binary? at hpick
  obtain ⟨⟨precedence, width⟩, hoperator, hpick⟩ := Option.bind_eq_some_iff.1 hpick
  obtain ⟨_, -, hpick⟩ := Option.bind_eq_some_iff.1 hpick
  obtain ⟨rfl, rfl⟩ := Prod.mk.inj (Option.some.inj hpick)
  obtain ⟨hend, hwidth⟩ := operator_cases hoperator
  have hright : Fits fun us =>
      if (current ts == .isKw || current ts == .asKw) && startsType us && !aheadAt 1 .dot us then
        self .type us
      else if current ts == .questionQuestion then self (.binary precedence) us
      else self (.binary (precedence + 1)) us := by
    intro us
    dsimp only
    split_ifs <;> exact hs.fits _ us
  refine ⟨⟨not_over hend, ?_, ?_⟩, by decide⟩
  · rcases hwidth with rfl | ⟨rfl, -⟩
    · exact .cons bump_fits (.cons hright .nil)
    · exact .cons bump_fits (.cons bump_fits (.cons hright .nil))
  · rcases hwidth with rfl | ⟨rfl, -⟩ <;> exact thin_behind (not_over hend)

/-- Binary expressions fit at every precedence. -/
theorem binaryPhrase_fits (level : Nat) :
    Fits (binaryPhrase self level) ∧ Lowers 4 (binaryPhrase self level) :=
  ⟨.cons flush_fits (.cons (wrapped_fits (hs.fits .unary) fun _ _ _ hpick =>
      (binary_fits hs hpick).1) .nil),
    Lowers.flushed (wrapped_lowers hs.unary fun _ _ _ hpick => (binary_fits hs hpick).2)⟩

/-- The question mark is a token of a conditional expression. -/
theorem conditional_fits : Fits (conditional self) ∧ Lowers 4 (conditional self) :=
  ⟨.cons flush_fits (.cons (extendIf_fits (fun ts => not_atEnd_of_ahead (by decide))
      (hs.fits _) (.cons (hs.fits _) (.cons (expect_fits _) (.cons (hs.fits _) .nil)))) .nil),
    Lowers.flushed (extendIf_lowers (hs.binary 0) (by decide))⟩

/-! ### Lambdas, blocks and expressions -/

/-- A block starts with its brace, and what is no statement in it is skipped. -/
theorem block_fits : Fits (block self) :=
  node_bump_fits (.cons (Fits.repeat (orWhenStuck_fits (hs.fits .statement) (skip_fits _)))
    (.cons (expect_fits _) .nil))

/-- A block that is complained about when it is missing fits. -/
theorem requiredBlock_fits : Fits (requiredBlock self) := (block_fits hs).either (complain_fits _)

/-- The parameters of a lambda start with their parenthesis. A single parameter may be only its
type, which stands lower. -/
theorem lambdaParameters_fits : Fits (lambdaParameters self) := by
  have hparameter : Fits (lambdaParameter self) :=
    node_fits_of_low (.cons (hs.fits .type).given (.cons (expect_fits _) .nil))
      (.cons (Lowers.given hs.type) (.cons (expect_lowers _) .nil))
  refine node_bump_fits (.cons (loop_fits fun ts _ => ?_) (.cons (expect_fits _) .nil))
  refine commaTurn_fits hparameter (fun stuck us => ?_) ts
  cases stuck with
  | true => exact skip_fits _ us
  | false => exact done_fits us

/-- A lambda has no token of its own where its arrow is missing. Then its parameters have one,
so the body does not have all the tokens, and they stand lower themselves. -/
theorem lambda_fits : Fits (lambda self) := by
  have hfits : Fits (either (ahead .ident) (node .parameter [bump]) (lambdaParameters self)) :=
    (node_bump_fits .nil).either (lambdaParameters_fits hs)
  have hlow : Lowers 3 (either (ahead .ident) (node .parameter [bump]) (lambdaParameters self)) :=
    (node_lowers (by decide)).either (node_lowers (by decide))
  have hbody : Fits (either (ahead .lBrace) (block self) (self .expression)) :=
    (block_fits hs).either (hs.fits .expression)
  have hall := Fits.cons hfits (.cons (expect_fits .fatArrow) (.cons hbody .nil))
  refine node_fits ⟨hall, fun ts => ?_⟩
  -- the parameters have a token, unless there is none at all
  by_cases hover : Over ts
  · exact thin_of_idle ((hall ts).idle hover).2
  · refine (hlow ts).thin_append ?_
    unfold either
    split
    · exact load_node_bump hover
    · exact load_node_bump hover

/-- An expression fits: a complaint, a lambda, or a conditional that an assignment may follow.
-/
theorem expressionPhrase_fits : Fits (expressionPhrase self) ∧ Lowers 4 (expressionPhrase self) := by
  obtain ⟨hfits, hlow⟩ := conditional_fits hs
  have hassignment (ts : List Token) (h : isAssignment (current ts) = true) : atEnd ts = false :=
    not_atEnd_of (P := isAssignment) rfl h
  constructor
  · exact (complain_fits _).either ((lambda_fits hs).either (.cons flush_fits
      (.cons (extendIf_fits hassignment hfits (.cons (hs.fits _) .nil)) .nil)))
  · exact (complain_lowers _).either ((node_lowers (by decide)).either
      (Lowers.flushed (extendIf_lowers hlow (by decide))))

/-- The equals sign is a token of its node. -/
theorem equalsValue_fits : Fits (equalsValue self) := node_bump_fits (.cons (hs.fits _) .nil)

/-! ### Statements -/

/-- Variables may be only a type or only a declarator, and both stand lower. -/
theorem variableDeclaration_fits : Fits (variableDeclaration self) := by
  have hdeclarator : Fits (declarator self) :=
    (node_bump_fits (.cons (equalsValue_fits hs).given .nil)).either (complain_fits _)
  have hlow : Lowers 1 (declarator self) := (node_lowers (by decide)).either (complain_lowers _)
  exact node_fits_of_low (.cons (hs.fits _) (.cons hdeclarator.separated .nil))
    (.cons (hs.type.mono (by decide)) (.cons (hlow.mono (by decide)).separated .nil))

omit hs in
/-- The variables of a declaration stand below it. -/
theorem variableDeclaration_lowers : Lowers 3 (variableDeclaration self) := node_lowers (by decide)

/-- A condition in parentheses fits. -/
theorem condition_fits : Fits (condition self) :=
  .cons (expect_fits _) (.cons (hs.fits _) (.cons (expect_fits _) .nil))

/-- The statement inside another one fits, or the complaint about it. -/
theorem embedded_fits : Fits (embedded self) := orWhenStuck_fits (hs.fits _) (complain_fits _)

/-- The expressions in the head of a loop fit. -/
theorem expressionList_fits (closing : Kind) : Fits (expressionList self closing) :=
  (hs.fits .expression).items

/-- A return or a throw starts with its keyword. -/
theorem valueJump_fits (k : Kind) : Fits (valueJump self k) :=
  node_bump_fits (.cons (hs.fits .expression).given (.cons (expect_fits _) .nil))

omit hs in
/-- A break or a continue starts with its keyword. -/
theorem plainJump_fits (k : Kind) : Fits (plainJump k) := node_bump_fits (.cons (expect_fits _) .nil)

/-- A section has no token of its own: its labels and statements all stand lower. -/
theorem switchSection_fits : Fits (switchSection self) := by
  have hlabel : Fits (switchLabel self) :=
    (node_bump_fits (.cons (hs.fits _) (.cons (expect_fits _) .nil))).either
      (node_bump_fits (.cons (expect_fits _) .nil))
  have hlow : Lowers 5 (switchLabel self) := (node_lowers (by decide)).either (node_lowers (by decide))
  exact node_fits_of_low
    (.cons hlabel.repeat (.cons (Fits.repeat (orWhenStuck_fits (hs.fits _) (skip_fits _))) .nil))
    (.cons hlow.repeat (.cons (Lowers.repeat (orWhenStuck_lowers hs.statement
      ((skip_lowers _).mono (by decide)))) .nil))

/-- A switch starts with its keyword, and what is no section in it is skipped. -/
theorem switchStatement_fits : Fits (switchStatement self) :=
  node_bump_fits (.cons (condition_fits hs) (.cons (expect_fits _)
    (.cons (Fits.repeat ((switchSection_fits hs).either (skip_fits _))) (.cons (expect_fits _) .nil))))

/-- A conditional statement starts with its keyword, and so does its else clause. -/
theorem ifStatement_fits : Fits (ifStatement self) :=
  node_bump_fits (.cons (condition_fits hs) (.cons (embedded_fits hs)
    (.cons (Fits.given (node_bump_fits (.cons (embedded_fits hs) .nil))) .nil)))

/-- A while loop starts with its keyword. -/
theorem whileStatement_fits : Fits (whileStatement self) :=
  node_bump_fits (.cons (condition_fits hs) (.cons (embedded_fits hs) .nil))

/-- A do loop starts with its keyword. -/
theorem doStatement_fits : Fits (doStatement self) :=
  node_bump_fits (.cons (embedded_fits hs) (.cons (expect_fits _) (.cons (condition_fits hs)
    (.cons (expect_fits _) .nil))))

/-- A for loop starts with its keyword, whatever its head is missing. -/
theorem forStatement_fits : Fits (forStatement self) :=
  node_bump_fits (.cons (expect_fits _)
    (.cons ((variableDeclaration_fits hs).either (expressionList_fits hs _)) (.cons (expect_fits _)
      (.cons (hs.fits .expression).given (.cons (expect_fits _) (.cons (expressionList_fits hs _)
        (.cons (expect_fits _) (.cons (embedded_fits hs) .nil))))))))

/-- A loop over a collection starts with its keyword. -/
theorem forEachStatement_fits : Fits (forEachStatement self) :=
  node_bump_fits (.cons (expect_fits _) (.cons (hs.fits _) (.cons (expect_fits _)
    (.cons (expect_fits _) (.cons (hs.fits _) (.cons (expect_fits _)
      (.cons (embedded_fits hs) .nil)))))))

/-- A using statement starts with its keyword. -/
theorem usingStatement_fits : Fits (usingStatement self) :=
  node_bump_fits (.cons bump_fits (.cons ((variableDeclaration_fits hs).either (hs.fits _))
    (.cons (expect_fits _) (.cons (embedded_fits hs) .nil))))

/-- A try statement, its catch clauses and its finally clause start with keywords. -/
theorem tryStatement_fits : Fits (tryStatement self) := by
  have hdeclaration : Fits (node .catchDeclaration [bump, self .type, eat .ident, expect .rParen]) :=
    node_bump_fits (.cons (hs.fits _) (.cons (eat_fits _) (.cons (expect_fits _) .nil)))
  have hcatch : Fits (catchClause self) :=
    node_bump_fits (.cons hdeclaration.given (.cons (requiredBlock_fits hs) .nil))
  exact node_bump_fits (.cons (requiredBlock_fits hs) (.cons hcatch.repeat
    (.cons (Fits.given (node_bump_fits (.cons (requiredBlock_fits hs) .nil))) .nil)))

/-- A local declaration may be only its variables, which stand lower, or start with a modifier.
-/
theorem localDeclaration_fits : Fits (localDeclaration self []) ∧ Fits (localDeclaration self [bump]) :=
  ⟨node_fits_of_low (.cons (variableDeclaration_fits hs) (.cons (expect_fits _) .nil))
      (.cons variableDeclaration_lowers (.cons (expect_lowers _) .nil)),
    node_bump_fits (.cons (variableDeclaration_fits hs) (.cons (expect_fits _) .nil))⟩

/-- Every statement fits and stands below a switch section. Only an expression statement and a
local declaration can have all their tokens in one child. -/
theorem statementFor_fits (k : Kind) :
    Fits (statementFor self k) ∧ Lowers 5 (statementFor self k) := by
  have hexpression : Fits (node .expressionStatement [self .expression, expect .semicolon]) :=
    node_fits_of_low (.cons (hs.fits _) (.cons (expect_fits _) .nil))
      (.cons hs.expression (.cons (expect_lowers _) .nil))
  obtain ⟨hplain, hlead⟩ := localDeclaration_fits hs
  unfold statementFor
  split
  · exact ⟨block_fits hs, node_lowers (by decide)⟩
  · exact ⟨node_bump_fits .nil, node_lowers (by decide)⟩
  · exact ⟨ifStatement_fits hs, node_lowers (by decide)⟩
  · exact ⟨switchStatement_fits hs, node_lowers (by decide)⟩
  · exact ⟨valueJump_fits hs _, node_lowers (by decide)⟩
  · exact ⟨valueJump_fits hs _, node_lowers (by decide)⟩
  · exact ⟨plainJump_fits _, node_lowers (by decide)⟩
  · exact ⟨plainJump_fits _, node_lowers (by decide)⟩
  · exact ⟨whileStatement_fits hs, node_lowers (by decide)⟩
  · exact ⟨doStatement_fits hs, node_lowers (by decide)⟩
  · exact ⟨forStatement_fits hs, node_lowers (by decide)⟩
  · exact ⟨forEachStatement_fits hs, node_lowers (by decide)⟩
  · exact ⟨tryStatement_fits hs, node_lowers (by decide)⟩
  · exact ⟨(usingStatement_fits hs).either hlead,
      (node_lowers (by decide)).either (node_lowers (by decide))⟩
  · exact ⟨hlead, node_lowers (by decide)⟩
  · exact ⟨hplain.either hexpression.given,
      (node_lowers (by decide)).either (Lowers.given (node_lowers (by decide)))⟩

/-! ### Declarations -/

omit hs in
/-- A using directive starts with its keyword. -/
theorem usingDirective_fits : Fits usingDirective :=
  node_bump_fits (.cons (eat_fits _) (.cons (Fits.given (.cons bump_fits (.cons bump_fits .nil)))
    (.cons name_fits (.cons (expect_fits _) .nil))))

/-- Declarations in a row fit, with what is skipped between them. -/
theorem declarations_fits : Fits (declarations self) ∧ Lowers 5 (declarations self) :=
  ⟨Fits.repeat (orWhenStuck_fits (hs.fits _) (skip_fits _)),
    Lowers.repeat (orWhenStuck_lowers (hs.member _) ((skip_lowers _).mono (by decide)))⟩

/-- Members in a row fit, with what is skipped between them. -/
theorem memberList_fits (enclosing : Option String) : Fits (memberList self enclosing) :=
  Fits.repeat (orWhenStuck_fits (hs.fits _) (skip_fits _))

/-- A namespace starts with its keyword, in both of its forms. -/
theorem namespaceDeclaration_fits : Fits (namespaceDeclaration self) :=
  node_bump_fits (.cons name_fits (.cons
    (Fits.either (.cons bump_fits (.cons (declarations_fits hs).1 .nil))
      (.cons (expect_fits _) (.cons (memberList_fits hs none) (.cons (expect_fits _) .nil)))) .nil))

omit hs in
/-- Type parameters start with their bracket. -/
theorem typeParameters_fits : Fits typeParameters :=
  node_bump_fits (.cons ((node_bump_fits .nil).either (complain_fits _)).separated
    (.cons (expect_fits _) .nil))

/-- Base types start with their colon. -/
theorem baseList_fits : Fits (baseList self) := node_bump_fits (.cons (hs.fits .type).separated .nil)

omit hs in
/-- The constraints of a generic type are tokens. -/
theorem constraints_fits : Fits constraints := Fits.repeat bump_fits.repeat

/-- What follows the keyword of a type declaration fits. -/
theorem typeBody_fits (enclosing : Option String) : Fits (all [expect .ident,
    given (ahead .lt) typeParameters, given (ahead .colon) (baseList self), constraints,
    expect .lBrace, memberList self enclosing, expect .rBrace, eat .semicolon]) :=
  .cons (expect_fits _) (.cons typeParameters_fits.given (.cons (baseList_fits hs).given
    (.cons constraints_fits (.cons (expect_fits _) (.cons (memberList_fits hs _)
      (.cons (expect_fits _) (.cons (eat_fits _) .nil)))))))

/-- A member of an enumeration may be only its attributes or its value, which stand lower. -/
theorem enumMember_fits : Fits (enumMember self) :=
  node_fits_of_low
    (.cons (attributeLists_fits hs) (.cons (expect_fits _) (.cons (equalsValue_fits hs).given .nil)))
    (.cons (Lowers.repeat (node_lowers (by decide))) (.cons (expect_lowers _)
      (.cons (Lowers.given (node_lowers (by decide))) .nil)))

/-- The members of an enumeration fit, with what is skipped between them. -/
theorem enumMembers_fits : Fits (enumMembers self) := by
  refine loop_fits fun ts _ => commaTurn_fits (enumMember_fits hs).given (fun stuck us => ?_) ts
  split
  · exact skip_fits _ us
  · dsimp only
    split
    · exact done_fits us
    · exact complain_fits _ us

/-- A parameter may be only its type or its attributes, which stand lower. -/
theorem parameter_fits : Fits (parameter self) :=
  Fits.given (node_fits_of_low
    (.cons (attributeLists_fits hs) (.cons bump_fits.repeat (.cons (hs.fits _)
      (.cons (expect_fits _) (.cons (equalsValue_fits hs).given .nil)))))
    (.cons (Lowers.repeat (node_lowers (by decide))) (.cons bump_lowers.repeat (.cons hs.type
      (.cons (expect_lowers _) (.cons (Lowers.given (node_lowers (by decide))) .nil))))))

/-- A parameter list without parentheses may be a single parameter, which stands lower. -/
theorem parameterList_fits : Fits (parameterList self) := by
  have hlow : Lowers 2 (parameter self) := Lowers.given (node_lowers (by decide))
  refine node_fits_of_low
    (.cons (expect_fits _) (.cons (Fits.given (loop_fits fun ts _ => ?_)) (.cons (expect_fits _) .nil)))
    (.cons (expect_lowers _) (.cons (Lowers.given (loop_lowers fun ts => ?_))
      (.cons (expect_lowers _) .nil)))
  · dsimp only
    split
    · exact (parameter_fits hs ts).andThen (complain_fits _ _)
    · split
      · exact (parameter_fits hs ts).andThen (bump_fits _)
      · exact parameter_fits hs ts
  · dsimp only
    split
    · exact (hlow ts).append (complain_lowers _ _)
    · split
      · exact (hlow ts).append (bump_lowers _)
      · exact hlow ts

/-- The arrow is a token of its clause. -/
theorem arrowClause_fits : Fits (arrowClause self) := node_bump_fits (.cons (hs.fits _) .nil)

/-- A body is a block, an arrow with an expression, or nothing but a semicolon. -/
theorem body_fits : Fits (body self) :=
  (block_fits hs).either (Fits.either (.cons (arrowClause_fits hs) (.cons (expect_fits _) .nil))
    (expect_fits _))

omit hs in
/-- Nodes of a body stand below whatever has one. -/
theorem body_lowers : Lowers 1 (body self) :=
  (node_lowers (by decide)).either (Lowers.either
    (.cons (node_lowers (by decide)) (.cons (expect_lowers _) .nil)) (expect_lowers _))

/-- The call of another constructor starts with its colon. -/
theorem constructorInitializer_fits : Fits (constructorInitializer self) :=
  node_bump_fits (.cons (bump_fits.either (complain_fits _))
    (.cons ((argumentList_fits hs).either (complain_fits _)) .nil))

/-- An accessor may be only its attributes or its body, which stand lower. -/
theorem accessor_fits : Fits (accessor self) :=
  Fits.given (node_fits_of_low
    (.cons (attributeLists_fits hs) (.cons bump_fits.repeat (.cons (expect_fits _)
      (.cons (body_fits hs) .nil))))
    (.cons (Lowers.repeat (node_lowers (by decide))) (.cons bump_lowers.repeat
      (.cons (expect_lowers _) (.cons body_lowers .nil)))))

/-- Accessors start with their brace. -/
theorem accessorList_fits : Fits (accessorList self) :=
  node_bump_fits (.cons (Fits.repeat (orWhenStuck_fits (accessor_fits hs) (skip_fits _)))
    (.cons (expect_fits _) .nil))

/-- A type declaration has its keyword as a token. -/
theorem typeDeclaration_below {n : Nat} : Below n (typeDeclaration self) :=
  bump_below (.cons (fun ts => typeBody_fits hs _ ts) .nil)

/-- Below every kind of declaration nothing has all its tokens but lower nodes: a keyword or a
name is a token of its own, a field has lower variables only, and an error takes tokens. -/
theorem declaration?_below {enclosing : Option String} {ts : List Token} {k : Kind} {p : Parser}
    (hpick : declaration? self enclosing ts = some (k, p)) :
    Below (height k) p ∧ 1 ≤ height k ∧ height k < 5 := by
  cases declares_of_declaration? hpick with
  | type keyword kind =>
      have hheight : ∀ l ∈ [Kind.classDeclaration, .structDeclaration, .interfaceDeclaration],
          height l = height .classDeclaration := by decide
      rw [hheight k kind]
      exact ⟨typeDeclaration_below hs, by decide⟩
  | enum =>
      exact ⟨bump_below (.cons (expect_fits _) (.cons (baseList_fits hs).given (.cons (expect_fits _)
        (.cons (enumMembers_fits hs) (.cons (expect_fits _) (.cons (eat_fits _) .nil)))))), by decide⟩
  | constructor =>
      exact ⟨bump_below (.cons (parameterList_fits hs) (.cons (constructorInitializer_fits hs).given
        (.cons (body_fits hs) .nil))), by decide⟩
  | method =>
      exact ⟨.cons (hs.fits _) hs.type (bump_below (.cons typeParameters_fits.given
        (.cons (parameterList_fits hs) (.cons constraints_fits (.cons (body_fits hs) .nil))))),
        by decide⟩
  | property =>
      exact ⟨.cons (hs.fits _) hs.type (bump_below (.cons (Fits.either
        (.cons (arrowClause_fits hs) (.cons (expect_fits _) .nil))
        (.cons (accessorList_fits hs) (.cons (Fits.given
          (.cons (equalsValue_fits hs) (.cons (expect_fits _) .nil))) .nil))) .nil)), by decide⟩
  | field =>
      exact ⟨Lowers.below (.cons variableDeclaration_lowers (.cons (expect_lowers _) .nil))
        (.cons (variableDeclaration_fits hs) (.cons (expect_fits _) .nil)), by decide⟩
  | nameless =>
      exact ⟨Lowers.below (.cons (complain_lowers _) (.cons bump_lowers.repeat
        (.cons bump_lowers.given .nil))) (.cons (complain_fits _) (.cons bump_fits.repeat
          (.cons (eat_fits _) .nil))), by decide⟩

/-- The attributes and modifiers stand before the part that tells the kinds of declarations
apart, and are low. -/
theorem declared_fits (enclosing : Option String) :
    Fits (declared self enclosing) ∧ Lowers 5 (declared self enclosing) := by
  have hlead : Fits (all [attributeLists self, modifiers]) :=
    .cons (attributeLists_fits hs) (.cons bump_fits.repeat .nil)
  have hleadLow : Lowers 1 (all [attributeLists self, modifiers]) :=
    .cons (Lowers.repeat (node_lowers (by decide))) (.cons bump_lowers.repeat .nil)
  have hboth : ∀ ts, (declared self enclosing ts).Fits ts ∧
      Low 5 (declared self enclosing ts).built := by
    intro ts
    unfold declared
    dsimp only
    split
    · next k p hpick =>
      obtain ⟨hp, hpos, hk⟩ := declaration?_below hs hpick
      refine ⟨under_fits ((hlead ts).andThen (hp.fits _)) ?_, under_lowers hk ts⟩
      exact ((hleadLow ts).mono hpos).append_thin (hp.thin _)
    · split
      · exact ⟨hlead ts, (hleadLow ts).mono (by decide)⟩
      · refine ⟨under_fits ((hlead ts).andThen (complain_fits _ _)) ?_, under_lowers (by decide) ts⟩
        exact ((hleadLow ts).append (complain_lowers _ _)).thin
  exact ⟨fun ts => (hboth ts).1, fun ts => (hboth ts).2⟩

/-- A declaration with the white space before it fits. -/
theorem declaration_fits (enclosing : Option String) :
    Fits (declaration self enclosing) ∧ Lowers 5 (declaration self enclosing) :=
  ⟨.cons flush_fits (.cons (declared_fits hs _).1 .nil), (declared_fits hs _).2.flushed⟩

/-- A member of a namespace or a type fits, as the token before it decides what it is. -/
theorem memberFor_fits (enclosing : Option String) (k : Kind) :
    Fits (memberFor self enclosing k) ∧ Lowers 5 (memberFor self enclosing k) := by
  obtain ⟨hfits, hlow⟩ := declaration_fits hs enclosing
  unfold memberFor
  split
  · exact ⟨usingDirective_fits.either hfits, (node_lowers (by decide)).either hlow⟩
  · exact ⟨namespaceDeclaration_fits hs, node_lowers (by decide)⟩
  · exact ⟨done_fits, .nil⟩
  · exact ⟨done_fits, .nil⟩
  · exact ⟨done_fits, .nil⟩
  · exact ⟨hfits, hlow⟩

/-- The phrases keep what the rules promise. -/
theorem phrase_levels : Levels (phrase self) where
  fits := by
    intro r
    cases r with
    | member enclosing => exact fun ts => (memberFor_fits hs enclosing (current ts)).1 ts
    | statement => exact fun ts => (statementFor_fits hs (current ts)).1 ts
    | expression => exact (expressionPhrase_fits hs).1
    | binary level => exact (binaryPhrase_fits hs level).1
    | unary => exact (unaryPhrase_fits hs).1
    | type => exact typePhrase_fits hs
  type := (node_lowers (by decide)).either ((node_lowers (by decide)).either (complain_lowers _))
  unary := (unaryPhrase_fits hs).2.mono (by decide)
  binary := fun level => (binaryPhrase_fits hs level).2
  expression := (expressionPhrase_fits hs).2
  statement := fun ts => (statementFor_fits hs (current ts)).2 ts
  member := fun enclosing ts => (memberFor_fits hs enclosing (current ts)).2 ts

end Grammar

/-- The rules unfolded any number of times keep what they promise. The one that gives up builds
nothing. -/
theorem unfold_levels (n : Nat) : Levels (unfold n) := by
  induction n with
  | zero =>
      have hfits : Fits giveUp := fun _ => fits_of_idle _ _
      have hlow {h : Nat} : Lowers h giveUp := fun _ _ hc => nomatch hc
      exact ⟨fun _ => hfits, hlow, hlow, fun _ => hlow, hlow, hlow, fun _ => hlow⟩
  | succ n ih => exact phrase_levels ih

/-- The declarations, the rest of the tokens and the end of the file make the root, which stands
above them all. -/
theorem source_stepped (ts : List Token) : EveryNodeAmong Stepped (source ts).built := by
  have hs := unfold_levels (rulesPerToken * (ts.length + 1))
  obtain ⟨hfits, hlow⟩ := declarations_fits hs
  unfold source
  generalize unfold (rulesPerToken * (ts.length + 1)) = self at hs hfits hlow ⊢
  have hleaves (us : List Token) : Low 5 (us.map leaf) := low_of_tokens fun c hc => by
    obtain ⟨t, -, rfl⟩ := List.mem_map.1 hc
    rfl
  rw [(unit_eq self ts).2]
  refine ⟨⟨Low.thin (Low.mono ((hlow ts).append ((hleaves _).append (hleaves _))) (by decide)),
    everyNodeAmong_append.2 ⟨(hfits ts).nodes, everyNodeAmong_append.2 ⟨everyNodeAmong_leaves _ _,
      everyNodeAmong_leaves _ _⟩⟩⟩, trivial⟩

/-! ## Widths -/

/-- The end of the file, and no other token, has no text. -/
def Lettered (xs : Stored) : Prop := ∀ x ∈ xs, x.1 = .endOfFile ↔ x.2 = ""

/-- Where only the end of the file has no text, rows without tokens are those without text. -/
theorem load_eq_zero_iff {cs : List Tree} (h : Lettered (tokensAll cs)) :
    load cs = 0 ↔ widthAll cs = 0 := by
  rw [load, List.countP_eq_zero, width_eq.2]
  constructor
  · intro hload
    rw [← widthOf_solid, show solid (tokensAll cs) = [] from List.filter_eq_nil_iff.2 fun x hx => by
      simpa [← h x hx] using hload x hx]
    rfl
  · intro hwidth x hx
    have hsolid := List.filter_eq_nil_iff.1 (solid_eq_nil hwidth) x hx
    simpa [h x hx] using hsolid

/-- A node in a row that is as wide as the row has all its tokens. -/
theorem Thin.height_lt {h : Nat} {before after : List Tree} {c : Tree}
    (hthin : Thin h (before ++ c :: after)) (hrow : Lettered (tokensAll (before ++ c :: after)))
    (hnode : c.isNode = true) (hpos : 0 < c.width)
    (hwidth : widthAll (before ++ c :: after) = c.width) : height c.kind < h := by
  rw [widthAll_append, widthAll] at hwidth
  have hempty {cs : List Tree} (hmem : ∀ x ∈ tokensAll cs, x ∈ tokensAll (before ++ c :: after))
      (hzero : widthAll cs = 0) : load cs = 0 :=
    (load_eq_zero_iff fun x hx => hrow x (hmem x hx)).2 hzero
  have hbefore : load before = 0 := hempty (by simp +contextual [tokensAll_append]) (by omega)
  have hafter : load after = 0 := hempty (by simp +contextual [tokensAll_append, tokensAll]) (by omega)
  have hchild : Lettered (tokensAll [c]) := fun x hx =>
    hrow x (by simp_all [tokensAll_append, tokensAll])
  refine hthin c (by simp) hnode (Nat.pos_of_ne_zero fun hzero => ?_) ?_
  · have hnone := (load_eq_zero_iff hchild).1 hzero
    simp only [widthAll] at hnone
    omega
  · rw [load_append, load_cons c after, hbefore, hafter]
    omega

end Parse

/-- **A child with all the tokens of its node stands lower**, whatever the text. -/
theorem parse_stepped (text : String) : (parse text).1.EveryNode Parse.Stepped := by
  have hsource := Parse.source_stepped (lex text).1
  rw [source_eq] at hsource
  exact hsource.1

end CodeMend

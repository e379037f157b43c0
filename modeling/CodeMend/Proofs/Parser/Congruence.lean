import CodeMend.Proofs.Parser.Orderly

/-!
# Relations that the grammar respects

Every definition of the grammar is put together from a few combinators, and it looks at its tokens
only through tests that pass over trivia (`Blind`).  A relation between parsers that all
combinators respect (`Congruence`) is therefore respected by the grammar.

Two things are left to the relation.  `F` says which nodes may be put over what ends with the work
of a parser, and `S` is what a step has to satisfy where the grammar asks whether it was stuck: it is
`steady` if it then left everything, and `drifting` if it may have taken trivia.
-/

namespace CodeMend.Parse

/-! ## What looking ahead can see -/

/-- What looking ahead can see: kind and text of the significant tokens, and whether a token is the
first half of a right shift. -/
def view : List Token → List (Kind × String × Bool)
  | [] => []
  | t :: ts =>
    if t.kind.isTrivia then view ts
    else (t.kind, t.text, t.kind == .gt && ts.head?.any (·.kind == .gt)) :: view ts

/-- A look that depends on what can be seen only. -/
def Blind {α : Type} (look : List Token → α) : Prop :=
  ∀ ts us, view ts = view us → look ts = look us

/-- Trivia cannot be seen. -/
theorem view_cons_of_trivia {t : Token} (ts : List Token) (h : t.kind.isTrivia = true) :
    view (t :: ts) = view ts := by
  simp [view, h]

/-- A significant token is seen with its text, and a `>` with whether another one touches it. -/
theorem view_cons {t : Token} (ts : List Token) (h : t.kind.isTrivia = false) :
    view (t :: ts) =
      (t.kind, t.text, t.kind == .gt && ts.head?.any (·.kind == .gt)) :: view ts := by
  simp [view, h]

/-- The same is seen behind the trivia at the front. -/
theorem view_dropWhile (ts : List Token) : view (ts.dropWhile (·.kind.isTrivia)) = view ts := by
  induction ts with
  | nil => rfl
  | cons t ts ih =>
      cases htrivia : t.kind.isTrivia with
      | true => simpa [view_cons_of_trivia ts htrivia, htrivia] using ih
      | false => simp [htrivia]

/-- Putting trivia in place changes nothing that can be seen. -/
theorem view_flush (ts : List Token) : view (flush ts).rest = view ts := view_dropWhile ts

/-- What is seen determines the kinds and texts of the significant tokens. -/
theorem significant_eq_view (ts : List Token) :
    (significant ts).map (fun t => (t.kind, t.text)) = (view ts).map (fun v => (v.1, v.2.1)) := by
  induction ts with
  | nil => rfl
  | cons t ts ih =>
      cases htrivia : t.kind.isTrivia with
      | true => simpa [view_cons_of_trivia ts htrivia, significant, htrivia] using ih
      | false => simpa [view_cons ts htrivia, significant, htrivia] using ih

/-- What is seen determines the kinds that are ahead. -/
theorem kinds_eq_view (ts : List Token) : kinds ts = (view ts).map Prod.fst := by
  have h := congrArg (List.map Prod.fst) (significant_eq_view ts)
  simpa [kinds, Function.comp_def] using h

namespace Blind

variable {α β : Type} {look : List Token → α} {test : List Token → β}

/-- A fixed answer looks at nothing. -/
theorem const (a : α) : Blind (fun _ => a) := fun _ _ _ => rfl

/-- What is made of the answer of a blind look is blind. -/
theorem map (h : Blind look) (f : α → β) : Blind (fun ts => f (look ts)) := by
  intro ts us hview
  dsimp only
  rw [h ts us hview]

/-- Two blind looks may be taken at once. -/
theorem pair (h : Blind look) (htest : Blind test) : Blind (fun ts => (look ts, test ts)) := by
  intro ts us hview
  dsimp only
  rw [h ts us hview, htest ts us hview]

/-- The kinds ahead are those of the significant tokens. -/
theorem kinds : Blind Parse.kinds := by
  intro ts us hview
  rw [kinds_eq_view, kinds_eq_view, hview]

/-- The kind at a place ahead does not depend on trivia. -/
theorem nth (n : Nat) : Blind (nth n) := kinds.map fun ks => ks[n]?.getD .endOfFile

/-- The next kind does not depend on trivia. -/
theorem current : Blind current := nth 0

/-- Whether a kind is next does not depend on trivia. -/
theorem ahead (k : Kind) : Blind (ahead k) := current.map (· == k)

/-- Whether a kind is ahead at a place does not depend on trivia. -/
theorem aheadAt (n : Nat) (k : Kind) : Blind (aheadAt n k) := (nth n).map (· == k)

/-- Whether the end is reached does not depend on trivia. -/
theorem atEnd : Blind atEnd := ahead .endOfFile

/-- The negation of a blind test is blind. -/
theorem not {look : Look} (h : Blind look) : Blind (fun ts => !look ts) := h.map (!·)

/-- Two blind tests make one. -/
theorem and {look test : Look} (h : Blind look) (htest : Blind test) :
    Blind (fun ts => look ts && test ts) := (h.pair htest).map fun x => x.1 && x.2

/-- One of two blind tests makes one. -/
theorem or {look test : Look} (h : Blind look) (htest : Blind test) :
    Blind (fun ts => look ts || test ts) := (h.pair htest).map fun x => x.1 || x.2

/-- The text of the next token does not depend on trivia. -/
theorem currentText : Blind currentText := by
  have htext : ∀ ts, Parse.currentText ts = ((view ts).head?.map fun v => v.2.1).getD "" := by
    intro ts
    have h := congrArg (fun l => (l.head?.map Prod.snd).getD "") (significant_eq_view ts)
    simpa [Parse.currentText, List.head?_map, Function.comp_def] using h
  intro ts us hview
  rw [htext, htext, hview]

/-- What is ahead behind a type does not depend on trivia. -/
theorem pastType (nullable : Bool) : Blind (pastType nullable) :=
  kinds.map fun ks => pastTypeIn (enough ks) nullable ks

/-- Whether a type is ahead does not depend on trivia. -/
theorem atType : Blind atType := (pastType true).map Option.isSome

/-- Whether type arguments are ahead does not depend on trivia. -/
theorem atTypeArguments : Blind atTypeArguments := by
  intro ts us hview
  rw [Parse.atTypeArguments, Parse.atTypeArguments, kinds ts us hview]

/-- Whether a type can start does not depend on trivia. -/
theorem startsType : Blind startsType := current.map fun k => k.isPredefinedType || k == .ident

/-- Whether a local declaration is ahead does not depend on trivia. -/
theorem atLocalDeclaration : Blind atLocalDeclaration := by
  intro ts us hview
  rw [Parse.atLocalDeclaration, Parse.atLocalDeclaration, pastType true ts us hview]

/-- Whether a type with a name is ahead does not depend on trivia. -/
theorem atTypedName (nullable : Bool) : Blind (atTypedName nullable) := by
  intro ts us hview
  rw [Parse.atTypedName, Parse.atTypedName, pastType nullable ts us hview]

/-- Whether a lambda is ahead does not depend on trivia. -/
theorem atLambda : Blind atLambda := by
  intro ts us hview
  rw [Parse.atLambda, Parse.atLambda, kinds ts us hview]

/-- Whether an expression can start does not depend on trivia. -/
theorem atExpression : Blind atExpression := by
  intro ts us hview
  simp only [Parse.atExpression, current ts us hview]

/-- Whether a parameter starts with a modifier does not depend on trivia. -/
theorem atParameterModifier : Blind atParameterModifier := by
  intro ts us hview
  simp only [Parse.atParameterModifier, current ts us hview]

/-- Whether a label is ahead does not depend on trivia. -/
theorem atSwitchLabel : Blind atSwitchLabel :=
  (current.map (· == .caseKw)).or ((current.map (· == .defaultKw)).and ((nth 1).map (· == .colon)))

/-- Whether an argument starts with a modifier does not depend on trivia. -/
theorem atArgumentModifier :
    Blind (fun ts => [.refKw, .outKw, .inKw].contains (Parse.current ts)) := by
  intro ts us hview
  dsimp only
  rw [current ts us hview]

/-- Whether an argument can start does not depend on trivia. -/
theorem atArgument : Blind atArgument :=
  (((ahead .ident).and (aheadAt 1 .colon)).or atArgumentModifier).or atExpression

/-- Whether two `>` touch is seen at the first one. This is the one place where trivia between
two tokens matter, and the reason why the view says so. -/
theorem atRightShift : Blind atRightShift := by
  have hshift : ∀ ts, Parse.atRightShift ts = (view ts).head?.any fun v => v.2.2 := by
    intro ts
    rw [← view_dropWhile]
    unfold Parse.atRightShift
    have hhead := List.head?_dropWhile_not (·.kind.isTrivia) ts
    cases hts : ts.dropWhile (·.kind.isTrivia) with
    | nil => rfl
    | cons a rest =>
        rw [hts] at hhead
        rw [view_cons rest (by simpa using hhead)]
        cases rest <;> simp
  intro ts us hview
  rw [hshift, hshift, hview]

/-- Whether an operator is ahead, and which one, does not depend on the trivia before it. -/
theorem operator : Blind operator? := by
  intro ts us hview
  simp only [operator?, atRightShift ts us hview, current ts us hview]

end Blind

/-! ## Forms of steps -/

/-- One turn of a loop.  What comes first chooses an item; whether the item was stuck and what comes
behind it choose how the turn goes on and whether there is another one. -/
def turnOf {α β : Type} (first : List Token → α) (item : α → Parser) (second : List Token → β)
    (next : α → Bool → β → Parser) (again : α → Bool → β → Bool) : List Token → Turn := fun ts =>
  let s := item (first ts) ts
  ⟨s.andThen (next (first ts) (stuck ts s) (second s.rest)),
    again (first ts) (stuck ts s) (second s.rest)⟩

/-- A lead and what it belongs to, under one node.  A lead that belongs to nothing is complained
about, unless it was stuck. -/
def headed {α : Type} (lead : Parser) (look : List Token → α)
    (pick : α → Option (Kind × Parser)) (message : String) : Parser := fun ts =>
  let s := lead ts
  match pick (look s.rest) with
  | some (k, p) => under k (fun _ => s.andThen p) ts
  | none =>
    if stuck ts s then s
    else under .error (fun _ => s.andThen (complain message)) ts

/-- Two choices of a node and how it goes on that agree on the node. -/
def Alike (R : Parser → Parser → Prop) (F : Kind → Parser → Prop) :
    Option (Kind × Parser) → Option (Kind × Parser) → Prop
  | none, none => True
  | some (k, p), some (l, q) => k = l ∧ F k p ∧ R p q
  | _, _ => False

/-- A property of one parser, as a relation. -/
def Alone (Q : Parser → Prop) (p _ : Parser) : Prop := Q p

/-- What agreeing choices say of one of them. -/
theorem Alike.left {Q : Parser → Prop} {F : Kind → Parser → Prop} {x y : Option (Kind × Parser)}
    (h : Alike (Alone Q) F x y) (k : Kind) (p : Parser) (hx : x = some (k, p)) : F k p ∧ Q p := by
  subst hx
  match y, h with
  | some (_, _), h => exact ⟨h.2.1, h.2.2⟩

/-- How a step stands that does not get on: with all its tokens, or perhaps behind some trivia. -/
inductive Standing where
  | steady
  | drifting

/-- A relation between parsers that the combinators of the grammar respect. -/
structure Congruence (R : Parser → Parser → Prop) (F : Kind → Parser → Prop)
    (S : Standing → Parser → Prop) : Prop where
  done : R done done
  complain : ∀ message, R (complain message) (complain message)
  flush : R flush flush
  bump : R bump bump
  seq : ∀ {p p' q q'}, R p p' → R q q' →
    R (fun ts => (p ts).andThen q) (fun ts => (p' ts).andThen q')
  choose : ∀ {α : Type} {l : List Token → α} {f g : α → Parser}, Blind l →
    (∀ a, R (f a) (g a)) → R (fun ts => f (l ts) ts) (fun ts => g (l ts) ts)
  under : ∀ {k p p'}, F k p → R p p' → R (under k p) (under k p')
  retry : ∀ {p p' q q'}, S .steady p → S .steady p' → R p p' → R q q' →
    R (orWhenStuck p q) (orWhenStuck p' q')
  recover : ∀ {look : Look} {p p'} (message : String), Blind look → S .drifting p →
    S .drifting p' → R p p' →
    R (repeatWhile look (orWhenStuck p (skip message)))
      (repeatWhile look (orWhenStuck p' (skip message)))
  extend : ∀ {look : Look} {k p p' ps ps'}, Blind look → F k (all ps) → R p p' →
    R (all ps) (all ps') → R (extendIf p look k ps) (extendIf p' look k ps')
  loop : ∀ {α β : Type} {look : Look} {first : List Token → α} {second : List Token → β}
    {item item' : α → Parser} {next next' : α → Bool → β → Parser} {again : α → Bool → β → Bool},
    Blind look → Blind first → Blind second → (∀ a, R (item a) (item' a)) →
    (∀ a stuck b, R (next a stuck b) (next' a stuck b)) →
    (∀ a, S .steady (item a) ∧ S .steady (item' a)) ∨
      (∀ a b, next a true b = next a false b ∧ next' a true b = next' a false b ∧
        again a true b = again a false b) →
    R (loop look (turnOf first item second next again))
      (loop look (turnOf first item' second next' again))
  wrap : ∀ {α : Type} {l : List Token → α} {f g : α → Option (Kind × List Parser)} {p p'},
    Blind l → R p p' →
    (∀ a, Alike R F ((f a).map fun x => (x.1, all x.2)) ((g a).map fun x => (x.1, all x.2))) →
    R (wrapped p (fun ts => f (l ts))) (wrapped p' (fun ts => g (l ts)))
  head : ∀ {α : Type} {l : List Token → α} {f g : α → Option (Kind × Parser)} {p p'}
    (message : String), S .steady p → S .steady p' → Blind l → R p p' →
    (∀ a, Alike R F (f a) (g a)) →
    R (headed p l f message) (headed p' l g message)

/-! ## What the combinators add up to -/

section Combinators

variable {R : Parser → Parser → Prop} {F : Kind → Parser → Prop}
variable {S : Standing → Parser → Prop}
variable {p p' q q' : Parser} {ps ps' : List Parser} {look : Look} {k : Kind}

/-- No parsers at all are related to none. -/
theorem nil_congr (C : Congruence R F S) : R (all []) (all []) := C.done

/-- Related parsers in front of related sequences. -/
theorem cons_congr (C : Congruence R F S) (hp : R p p') (hps : R (all ps) (all ps')) :
    R (all (p :: ps)) (all (p' :: ps')) := C.seq hp hps

/-- A node over related sequences, with the trivia before it. -/
theorem node_congr (C : Congruence R F S) (hk : F k (all ps)) (hps : R (all ps) (all ps')) :
    R (node k ps) (node k ps') :=
  cons_congr C C.flush (cons_congr C (C.under hk hps) (nil_congr C))

/-- A choice between related parsers by a blind test. -/
theorem either_congr (C : Congruence R F S) (hlook : Blind look) (hp : R p p') (hq : R q q') :
    R (either look p q) (either look p' q') := by
  refine C.choose (f := fun b ts => if b then p ts else q ts)
    (g := fun b ts => if b then p' ts else q' ts) hlook fun b => ?_
  cases b with
  | true => exact hp
  | false => exact hq

/-- An optional part that is related. -/
theorem given_congr (C : Congruence R F S) (hlook : Blind look) (hp : R p p') :
    R (given look p) (given look p') := either_congr C hlook hp C.done

/-- A choice by the kind that comes next: each parser is run only where its kind does. -/
theorem dispatch_congr (C : Congruence R F S) {f g : Kind → Parser}
    (h : ∀ l, R (given (ahead l) (f l)) (given (ahead l) (g l))) :
    R (fun ts => f (current ts) ts) (fun ts => g (current ts) ts) := by
  have hgiven : ∀ f : Kind → Parser,
      (fun ts => f (current ts) ts) = fun ts => given (ahead (current ts)) (f (current ts)) ts := by
    intro f
    funext ts
    simp [given, either, ahead]
  rw [hgiven f, hgiven g]
  exact C.choose (f := fun l => given (ahead l) (f l)) (g := fun l => given (ahead l) (g l))
    .current h

/-- A token that may be missing refers to no rule. -/
theorem eat_congr (C : Congruence R F S) : R (eat k) (eat k) := given_congr C (.ahead k) C.bump

/-- A token that is expected refers to no rule. -/
theorem expect_congr (C : Congruence R F S) : R (expect k) (expect k) :=
  either_congr C (.ahead k) C.bump (C.complain _)

/-- A token that is skipped becomes a node of its own, of which nothing else is said. -/
theorem skip_congr (C : Congruence R F S) (hF : F .error (all [bump])) (message : String) :
    R (skip message) (skip message) :=
  either_congr C .atEnd (C.complain message)
    (cons_congr C (C.complain message)
      (cons_congr C (node_congr C hF (cons_congr C C.bump (nil_congr C))) (nil_congr C)))

/-- Repeating related parsers while a blind test holds. -/
theorem repeatWhile_congr (C : Congruence R F S) (hlook : Blind look) (hp : R p p') :
    R (repeatWhile look p) (repeatWhile look p') := by
  have hturn : ∀ q : Parser, (fun ts => Turn.mk (q ts) true) =
      turnOf (fun _ => ()) (fun _ => q) (fun _ => ()) (fun _ _ _ => done) (fun _ _ _ => true) := by
    intro q
    funext ts
    simp only [turnOf, Step.andThen_done]
  simp only [repeatWhile, hturn]
  exact C.loop hlook (.const _) (.const _) (fun _ => hp) (fun _ _ _ => C.done)
    (Or.inr fun _ _ => ⟨rfl, rfl, rfl⟩)

/-- A turn of a list with commas, as the loops have it: `missing` says how the turn goes on where a
comma is missing, `more` whether the loop does. -/
theorem commaTurn_eq {β : Type} (item : Parser) (second : List Token → β)
    (missing : Bool → β → Parser) (more : Bool → β → Bool) :
    commaTurn item (fun b ts => ⟨missing b (second ts) ts, more b (second ts)⟩) =
      turnOf (fun _ => ()) (fun _ => item) (fun ts => (ahead .comma ts, second ts))
        (fun _ b x => if x.1 then bump else missing b x.2)
        (fun _ b x => x.1 || more b x.2) := by
  funext ts
  simp only [commaTurn, turnOf]
  cases ahead .comma (item ts).rest <;> rfl

/-- A list with commas is a loop of related turns. Where a comma is missing, either it does not
matter whether the item was stuck, or both items stand steady. -/
theorem commaLoop_congr (C : Congruence R F S) {β : Type} (second : List Token → β)
    (missing : Bool → β → Parser) (more : Bool → β → Bool) (hlook : Blind look)
    (hsecond : Blind second) (hp : R p p') (hmissing : ∀ b x, R (missing b x) (missing b x))
    (hstuck : S .steady p ∧ S .steady p' ∨
      ∀ x, missing true x = missing false x ∧ more true x = more false x) :
    R (loop look (commaTurn p (fun b ts => ⟨missing b (second ts) ts, more b (second ts)⟩)))
      (loop look (commaTurn p' (fun b ts => ⟨missing b (second ts) ts, more b (second ts)⟩))) := by
  rw [commaTurn_eq, commaTurn_eq]
  refine C.loop hlook (.const _) ((Blind.ahead .comma).pair hsecond) (fun _ => hp)
    (fun _ b x => ?_) ?_
  · cases x.1 with
    | true => exact C.bump
    | false => exact hmissing b x.2
  · rcases hstuck with hsteady | hsame
    · exact Or.inl fun _ => hsteady
    · exact Or.inr fun _ x => by simp only [(hsame x.2).1, (hsame x.2).2, and_self]

/-- Items with commas between them, up to the first that has none behind it. -/
theorem items_congr (C : Congruence R F S) (hlook : Blind look) (hp : R p p') :
    R (loop look (commaTurn p (fun _ => stop done)))
      (loop look (commaTurn p' (fun _ => stop done))) :=
  commaLoop_congr C (fun _ => ()) (fun _ _ => done) (fun _ _ => false) hlook (.const _) hp (fun _ _ => C.done) (Or.inr fun _ => ⟨rfl, rfl⟩)

/-- Related items with commas between them. -/
theorem separated_congr (C : Congruence R F S) (hp : R p p') :
    R (separated p) (separated p') := items_congr C (.const true) hp

end Combinators

end CodeMend.Parse

import CodeMend.Proofs.Parser.Expression

/-!
# Reading expressions back

Each rule of the grammar reads the tokens of an expression and builds its tree, where what follows
cannot go on with the expression (`Stops`).  The tree of an expression is known by what reads it:

* a primary expression with what belongs to it is grown from its first token (`Suffixed`);
* with signs before it, it is read as an operand (`Unary`);
* with binary operators, it is reached in a climb that started with its first operand (`Climbs`);
* any expression is read as a whole (`Whole`).

Each of these gives the next, and parentheses lead from the last back to the first.
-/

namespace CodeMend.Parse

open Tree Lexer

/-! ## What may follow -/

/-- Up to the next semicolon there is neither an arrow nor a colon. -/
def Plain (ks : List Kind) : Prop :=
  ∀ k ∈ ks.takeWhile (· != .semicolon), k ≠ .fatArrow ∧ k ≠ .colon

/-- Kinds without arrows and colons may stand before what is plain. -/
theorem Plain.append {xs ys : List Kind} (hxs : ∀ k ∈ xs, k ≠ .fatArrow ∧ k ≠ .colon)
    (hys : Plain ys) : Plain (xs ++ ys) := by
  induction xs with
  | nil => exact hys
  | cons x xs ih =>
      obtain ⟨hx, hxs⟩ := List.forall_mem_cons.1 hxs
      intro k hk
      rw [List.cons_append, List.takeWhile_cons] at hk
      split at hk
      · rcases List.mem_cons.1 hk with rfl | hk
        · exact hx
        · exact ih hxs k hk
      · cases hk

/-- Behind a token that is no semicolon, what is plain stays so. -/
theorem Plain.tail {k : Kind} {ks : List Kind} (h : Plain (k :: ks)) (hk : k ≠ .semicolon) :
    Plain ks := by
  intro l hl
  refine h l ?_
  rw [List.takeWhile_cons_of_pos (by simpa using hk)]
  exact List.mem_cons_of_mem k hl

/-- What is plain starts neither with an arrow nor with a colon. -/
theorem Plain.head {k : Kind} {ks : List Kind} (h : Plain (k :: ks)) :
    k ≠ .fatArrow ∧ k ≠ .colon := by
  by_cases hk : k = .semicolon
  · subst hk
    exact ⟨nofun, nofun⟩
  · refine h k ?_
    rw [List.takeWhile_cons_of_pos (by simpa using hk)]
    exact List.mem_cons_self

/-- Where there is no arrow, no parenthesis closes before one. -/
theorem Plain.closesIntoArrow {ks : List Kind} (h : Plain ks) (depth : Nat) :
    closesIntoArrow depth ks = false := by
  induction ks generalizing depth with
  | nil => rfl
  | cons k ks ih =>
      by_cases hsemicolon : k = .semicolon
      · subst hsemicolon
        rfl
      · have htail := h.tail hsemicolon
        unfold Parse.closesIntoArrow
        split
        · exact ih htail _
        · split
          · cases ks with
            | nil => rfl
            | cons l ks => simpa using htail.head.1
          · exact ih htail _
        · rfl
        · rfl
        · rfl
        · exact ih htail _

/-- Without an arrow ahead there is no lambda. -/
theorem Plain.atLambda {ts : List Token} (h : Plain (kinds ts)) : atLambda ts = false := by
  unfold Parse.atLambda
  split
  · next hkinds =>
    rw [hkinds] at h
    exact absurd rfl (h.tail nofun).head.1
  · next hkinds =>
    rw [hkinds] at h
    exact (h.tail nofun).closesIntoArrow 1
  · rfl

/-- The second token is no colon. -/
theorem Plain.second {ts : List Token} (h : Plain (kinds ts)) (hcurrent : current ts ≠ .semicolon) :
    aheadAt 1 .colon ts = false := by
  unfold aheadAt nth
  unfold current nth at hcurrent
  cases hkinds : kinds ts with
  | nil => rfl
  | cons k ks =>
      rw [hkinds] at h hcurrent
      cases ks with
      | nil => rfl
      | cons l ks => simpa using (h.tail hcurrent).head.2

/-- The kinds behind which no expression goes on. -/
def closers : List Kind := [.semicolon, .comma, .rParen, .rBracket, .rBrace]

/-- What follows ends an expression whose operators bind at least as tightly as `level`. -/
structure Stops (level : Nat) (rest : List Token) : Prop where
  plain : Plain (kinds rest)
  next : current rest ∈ closers ∨ ∃ p width, operator? rest = some (p, width) ∧ p < level

/-- What ends an expression ends one whose operators bind more tightly. -/
theorem Stops.mono {level level' : Nat} {rest : List Token} (h : Stops level rest)
    (hle : level ≤ level') : Stops level' rest := by
  refine ⟨h.plain, h.next.imp_right ?_⟩
  rintro ⟨p, width, hnext, hp⟩
  exact ⟨p, width, hnext, Nat.lt_of_lt_of_le hp hle⟩

/-- The first token of an operator is in the table of operators. -/
theorem precedence_of_operator {ts : List Token} {p width : Nat}
    (h : operator? ts = some (p, width)) : (precedence? (current ts)).isSome = true := by
  unfold operator? at h
  split at h
  · next hshift =>
    obtain ⟨hcurrent, -⟩ := bump_bump_shift hshift
    rw [hcurrent]
    rfl
  · obtain ⟨q, hq, -⟩ := Option.map_eq_some_iff.1 h
    rw [hq]
    rfl

/-- What ends an expression is a closer or starts an operator. -/
theorem Stops.kind {level : Nat} {rest : List Token} (h : Stops level rest) :
    current rest ∈ closers ∨ (precedence? (current rest)).isSome = true := by
  refine h.next.imp_right ?_
  rintro ⟨p, width, hnext, -⟩
  exact precedence_of_operator hnext

/-- Neither a suffix nor a condition nor an assignment starts with what closes an expression or with an
operator. -/
theorem follow_kinds {k : Kind} (h : k ∈ closers ∨ (precedence? k).isSome = true) :
    k ∉ [.dot, .questionDot, .lParen, .lBracket, .plusPlus, .minusMinus] ∧ k ≠ .question ∧
      isAssignment k = false := by
  cases k <;> first | exact absurd h (by decide) | decide

/-- What ends an expression is no suffix of it. -/
theorem Stops.suffix {level : Nat} {rest : List Token} (h : Stops level rest)
    (self : Rule → Parser) : suffix? self rest = none := by
  obtain ⟨hsuffix, -⟩ := follow_kinds h.kind
  simp only [List.mem_cons, List.not_mem_nil, or_false, not_or] at hsuffix
  unfold suffix?
  split
  · simp_all
  · simp_all
  · simp_all
  · simp_all
  · simp_all
  · simp_all
  · rfl

/-- No operator starts with a closer. -/
theorem operator_of_closer {ts : List Token} (h : current ts ∈ closers) : operator? ts = none := by
  cases hop : operator? ts with
  | none => rfl
  | some found =>
      obtain ⟨p, width⟩ := found
      have hclosers : ∀ k ∈ closers, (precedence? k).isSome = false := by decide
      have hprecedence := precedence_of_operator hop
      rw [hclosers _ h] at hprecedence
      cases hprecedence

/-- What ends an expression is no operator that it would take. -/
theorem Stops.binary {level : Nat} {rest : List Token} (h : Stops level rest)
    (self : Rule → Parser) : binary? self level rest = none := by
  rcases binary_cases self level rest with ⟨hnone, -⟩ | ⟨p, width, hop, hlevel, -⟩
  · exact hnone
  · rcases h.next with hclosed | ⟨q, width', hop', hq⟩
    · rw [operator_of_closer hclosed] at hop
      cases hop
    · rw [hop] at hop'
      obtain ⟨rfl, -⟩ := Prod.mk.inj (Option.some.inj hop')
      omega

/-! ## What an expression starts with -/

/-- There is neither an arrow nor a colon among the tokens. -/
def Bland (xs : Stored) : Prop := ∀ x ∈ xs, x.1 ≠ .fatArrow ∧ x.1 ≠ .colon

/-- Two rows are bland together if each one is. -/
theorem bland_append {xs ys : Stored} : Bland (xs ++ ys) ↔ Bland xs ∧ Bland ys :=
  List.forall_mem_append

/-- A token in front of a row has to be bland as well. -/
theorem bland_cons {k : Kind} {s : String} {xs : Stored} :
    Bland ((k, s) :: xs) ↔ (k ≠ .fatArrow ∧ k ≠ .colon) ∧ Bland xs :=
  List.forall_mem_cons

/-- Nothing is bland. -/
theorem bland_nil : Bland [] := by
  intro x hx
  cases hx

/-- Trivia are bland. -/
theorem bland_lead {xs : Stored} (h : Lead xs) : Bland xs := by
  intro x hx
  have htrivia := h x hx
  constructor
  · intro hkind
    rw [hkind] at htrivia
    cases htrivia
  · intro hkind
    rw [hkind] at htrivia
    cases htrivia

/-- Bland tokens may stand before what is plain. -/
theorem Plain.behind {xs : Stored} {ts rest : List Token} (hrest : Plain (kinds rest))
    (hxs : Bland xs) (hstarts : Starts xs ts rest) : Plain (kinds ts) := by
  rw [hstarts.kinds]
  refine hrest.append fun k hk => ?_
  obtain ⟨x, hx, rfl⟩ := List.mem_map.1 hk
  exact hxs x (List.mem_filter.1 hx).1

/-- The kinds with which an expression starts. -/
def starters : List Kind :=
  [.intLiteral, .stringLiteral, .ident, .lParen, .bang, .minus, .plus, .tilde]

/-- The tokens start as those of an expression, and there is neither an arrow nor a colon in them. -/
structure Fit (xs : Stored) : Prop where
  head : ∃ k ∈ starters, HeadOf k xs
  bland : Bland xs

/-- The leaves made of stored tokens store them. -/
@[simp] theorem tokensAll_leaves_stored (xs : Stored) : tokensAll (leaves xs) = xs := by
  induction xs with
  | nil => rfl
  | cons x xs ih =>
      show [x] ++ tokensAll (leaves xs) = x :: xs
      rw [ih]
      rfl

variable {xs ys lead : Stored} {ts rest : List Token} {t : Tree} {level bound : Nat}

/-- The next kind is one that starts an expression, whatever trivia stand before it. -/
theorem Fit.current (h : Fit xs) (hstarts : Starts (lead ++ (xs ++ ys)) ts rest)
    (hlead : Lead lead) : current ts ∈ starters := by
  obtain ⟨k, hk, hsignificant, s, zs, rfl⟩ := h.head
  rw [hstarts.current hlead ⟨hsignificant, s, zs ++ ys, rfl⟩]
  exact hk

/-- Bland tokens may follow those of an expression. -/
theorem Fit.append (h : Fit xs) (hys : Bland ys) : Fit (xs ++ ys) := by
  obtain ⟨k, hk, hsignificant, s, zs, rfl⟩ := h.head
  exact ⟨⟨k, hk, hsignificant, s, zs ++ ys, rfl⟩, bland_append.2 ⟨h.bland, hys⟩⟩

/-! ## What reads a tree -/

/-- A primary expression with what belongs to it, from its first token on. -/
def grown (self : Rule → Parser) : Parser := fun ts =>
  match primary? self (current ts) with
  | some p => wrapped p (suffix? self) ts
  | none => complain "Expected an expression" ts

/-- The tree starts without a sign, and is reached by what belongs to a primary expression. -/
structure Suffixed (t : Tree) : Prop where
  head : ∃ k ∉ signs, HeadOf k t.tokens
  grows : ∀ n ts rest, Starts t.tokens ts rest → Plain (kinds rest) →
    (grown (unfold n) ts).cut = false →
    ∃ m, grown (unfold n) ts = wraps (suffix? (unfold n)) m [t] rest

/-- The tree is read as an operand with its signs. -/
def Unary (t : Tree) : Prop :=
  ∀ n lead, Lead lead →
    Reads (Stops Expression.signLevel) (unfold n .unary) (lead ++ t.tokens) (leaves lead ++ [t])

/-- The tree is reached in a climb over operators that bind at least as tightly as `level`, where what
follows binds less tightly than `bound`. -/
def Climbs (level bound : Nat) (t : Tree) : Prop :=
  ∀ n ts rest, Starts t.tokens ts rest → Stops bound rest →
    (wrapped (unfold n .unary) (binary? (unfold n) level) ts).cut = false →
    ∃ m, wrapped (unfold n .unary) (binary? (unfold n) level) ts =
      wraps (binary? (unfold n) level) m [t] rest

/-- The tree is read as an expression. -/
def Whole (t : Tree) : Prop :=
  ∀ n lead, Lead lead →
    Reads (Stops 0) (unfold n .expression) (lead ++ t.tokens) (leaves lead ++ [t])

/-- Out of rules nothing has to be read, since the parser is cut. -/
theorem reads_zero {A : List Token → Prop} {r : Rule} {trees : List Tree} :
    Reads A (unfold 0 r) xs trees := by
  intro ts rest _ _ hcut
  cases hcut

/-- The next kind is that of the first significant token. -/
theorem HeadOf.current {k : Kind} (h : HeadOf k xs) (hstarts : Starts xs ts rest) :
    current ts = k := by
  rw [← List.nil_append xs] at hstarts
  exact hstarts.current lead_nil h

/-- Only one kind comes first. -/
theorem HeadOf.unique {k l : Kind} (hk : HeadOf k xs) (hl : HeadOf l xs) : k = l := by
  obtain ⟨-, s, us, rfl⟩ := hk
  obtain ⟨-, s', us', h⟩ := hl
  exact congrArg Prod.fst (List.cons.inj h).1

/-- An operand that starts without a sign is read as an operand, trivia before it included. The
suffixes end where nothing can go on. -/
theorem Suffixed.unary (h : Suffixed t) (hfit : Fit t.tokens) : Unary t := by
  intro n lead hlead
  cases n with
  | zero => exact reads_zero
  | succ n =>
      obtain ⟨k, hk, hhead⟩ := hfit.head
      have hgrown : Reads (Stops Expression.signLevel) (grown (unfold n)) t.tokens [t] := by
        intro ts rest hstarts hstops hcut
        obtain ⟨m, hm⟩ := h.grows n ts rest hstarts hstops.plain hcut
        rw [hm, wraps_none (hstops.suffix _)]
      intro ts rest hstarts hstops hcut
      have hunsigned : ¬ [Kind.bang, .minus, .plus, .tilde, .plusPlus, .minusMinus].contains
          (current ts) = true := by
        rw [hstarts.current hlead hhead]
        obtain ⟨l, hl, hhead'⟩ := h.head
        obtain rfl := hhead.unique hhead'
        have hunsigned : ∀ k ∈ starters, k ∉ signs → ¬ [Kind.bang, .minus, .plus, .tilde, .plusPlus,
          .minusMinus].contains k = true := by decide
        exact hunsigned k hk hl
      have hphrase : unfold (n + 1) .unary ts = all [flush, grown (unfold n)] ts := by
        show unaryPhrase (unfold n) ts = _
        rw [unaryPhrase, if_neg hunsigned]
        rfl
      rw [hphrase] at hcut ⊢
      exact hgrown.flush hlead hhead ts rest hstarts hstops hcut

/-- A sign before an operand. -/
theorem Unary.signed (h : Unary t) (o : Sign) {gap : Stored} (hgap : Lead gap) :
    Unary (.node .prefixUnaryExpression (.token o.kind (mark o.kind) :: (leaves gap ++ [t]))) := by
  intro n lead hlead
  cases n with
  | zero => exact reads_zero
  | succ n =>
      have hsignificant : o.kind.isTrivia = false := Expression.isTrivia_sign o
      have hend : o.kind ≠ .endOfFile := by
        intro hkind
        exact absurd (hkind ▸ o.mem) (by decide)
      have hbump := bump_reads hsignificant hend (mark o.kind) lead_nil
      have hrow := hbump.cons (h n gap hgap).single fun _ _ _ _ => trivial
      have hhead : HeadOf o.kind ([] ++ [(o.kind, mark o.kind)] ++ (gap ++ t.tokens)) :=
        ⟨hsignificant, _, _, rfl⟩
      have hnode := hrow.node (k := .prefixUnaryExpression) hlead hhead
      intro ts rest hstarts hstops hcut
      simp only [tokens, tokensAll, tokensAll_append, tokensAll_leaves_stored] at hstarts
      have hsigned : [Kind.bang, .minus, .plus, .tilde, .plusPlus, .minusMinus].contains
          (current ts) = true := by
        have hcurrent := hstarts.current hlead ⟨hsignificant, _, _, rfl⟩
        rw [hcurrent]
        have hsigns : ∀ k ∈ signs, [Kind.bang, .minus, .plus, .tilde, .plusPlus,
          .minusMinus].contains k = true := by decide
        exact hsigns o.kind o.mem
      have hphrase : unfold (n + 1) .unary ts =
          node .prefixUnaryExpression [bump, unfold n .unary] ts := by
        show unaryPhrase (unfold n) ts = _
        rw [unaryPhrase, if_pos hsigned]
      rw [hphrase] at hcut ⊢
      exact hnode ts rest (by simpa using hstarts) hstops hcut

/-- An operand is where a climb starts. -/
theorem Unary.climbs (h : Unary t) (level : Nat) : Climbs level Expression.signLevel t := by
  intro n ts rest hstarts hstops hcut
  obtain ⟨hoperand, hwraps⟩ := Bool.or_eq_false_iff.1 hcut
  have hread := h n [] lead_nil ts rest hstarts hstops hoperand
  refine ⟨rest.length, ?_⟩
  unfold wrapped
  rw [hread]
  rfl

/-- What is reached in a climb is read by it, where nothing follows that the climb would take. -/
theorem Climbs.reads (h : Climbs level bound t) (hle : level ≤ bound) (hfit : Fit t.tokens) (n : Nat)
    (hlead : Lead lead) :
    Reads (Stops level) (unfold n (.binary level)) (lead ++ t.tokens) (leaves lead ++ [t]) := by
  cases n with
  | zero => exact reads_zero
  | succ n =>
      obtain ⟨k, hk, hhead⟩ := hfit.head
      have hclimb : Reads (Stops level) (wrapped (unfold n .unary) (binary? (unfold n) level))
          t.tokens [t] := by
        intro ts rest hstarts hstops hcut
        obtain ⟨m, hm⟩ := h n ts rest hstarts (hstops.mono hle) hcut
        rw [hm, wraps_none (hstops.binary _)]
      exact hclimb.flush hlead hhead

/-- Where the test fails behind a tree, no node is put over it. -/
theorem Reads.extendIf {A : List Token → Prop} {p : Parser} {look : Look} {k : Kind}
    {ps : List Parser} {trees : List Tree} (h : Reads A p xs trees)
    (hlook : ∀ rest, A rest → look rest = false) : Reads A (extendIf p look k ps) xs trees := by
  intro ts rest hstarts hafter hcut
  have hp : (p ts).cut = false := by
    simp only [Parse.extendIf] at hcut
    split at hcut
    · exact (Bool.or_eq_false_iff.1 hcut).1
    · exact hcut
  have hread := h ts rest hstarts hafter hp
  unfold Parse.extendIf
  rw [hread]
  simp [hlook rest hafter]

/-- What starts with a token of an expression looks like one. -/
theorem atExpression_of_starters {ts : List Token} (h : current ts ∈ starters) :
    atExpression ts = true := by
  have hstarters : ∀ k ∈ starters, (k.isLiteral || k.isPredefinedType ||
    [.ident, .thisKw, .baseKw, .lParen, .newKw, .typeofKw, .defaultKw, .lBrace, .bang, .minus,
     .plus, .tilde, .plusPlus, .minusMinus].contains k) = true := by decide
  exact hstarters _ h

/-- A whole expression is no lambda, and no condition or assignment starts with it. -/
theorem Climbs.whole (h : Climbs 0 bound t) (hfit : Fit t.tokens) : Whole t := by
  intro n lead hlead
  cases n with
  | zero => exact reads_zero
  | succ n =>
      obtain ⟨k, hk, hhead⟩ := hfit.head
      have hbinary : Reads (Stops 0) (unfold n (.binary 0)) t.tokens [t] :=
        h.reads (Nat.zero_le _) hfit n lead_nil
      have hconditional : Reads (Stops 0) (conditional (unfold n)) t.tokens [t] := by
        refine (hbinary.extendIf fun rest hstops => ?_).flush lead_nil hhead
        simpa [ahead] using (follow_kinds hstops.kind).2.1
      have hassigned : Reads (Stops 0) (extendIf (conditional (unfold n))
          (fun ts => isAssignment (current ts)) .assignmentExpression [bump, unfold n .expression])
          t.tokens [t] :=
        hconditional.extendIf fun rest hstops => (follow_kinds hstops.kind).2.2
      refine ((hassigned.flush hlead hhead).either_neg fun ts rest hstarts hstops => ?_).either_neg
        fun ts rest hstarts hstops => ?_
      · exact (hstops.plain.behind (bland_append.2 ⟨bland_lead hlead, hfit.bland⟩) hstarts).atLambda
      · have hcurrent : current ts ∈ starters := by
          rw [hstarts.current hlead hhead]
          exact hk
        simp [atExpression_of_starters hcurrent]

/-! ## Binary operators -/

end CodeMend.Parse

namespace CodeMend.Operator

open Tree Lexer Parse

variable {rest : List Token}

/-- The first token of an operator is neither trivia nor the end of the file. -/
theorem significant (o : Operator) : o.kind.isTrivia = false ∧ o.kind ≠ .endOfFile := by
  cases o with
  | mark k binds plain =>
      obtain ⟨p, hp⟩ := Option.isSome_iff_exists.1 binds
      refine ⟨precedence_significant hp, ?_⟩
      show k ≠ .endOfFile
      rintro rfl
      cases hp
  | shift => exact ⟨rfl, nofun⟩

/-- The tokens of an operator are no arrows and no colons. -/
theorem bland_tokens (o : Operator) : Bland o.tokens := by
  cases o with
  | mark k binds plain =>
      refine bland_cons.2 ⟨⟨?_, ?_⟩, bland_nil⟩
      · rintro rfl
        cases binds
      · rintro rfl
        cases binds
  | shift => exact bland_cons.2 ⟨by decide, bland_cons.2 ⟨by decide, bland_nil⟩⟩

/-- An operator that comes next is found, unless it runs into another `>`. -/
theorem found (o : Operator) {gap zs : Stored} {mid : List Token}
    (hstarts : Starts (gap ++ (o.tokens ++ zs)) mid rest) (hgap : Lead gap)
    (hzs : ∃ z us, zs = z :: us ∧ z.1 ≠ .gt) :
    operator? mid = some (o.precedence, o.tokens.length) ∧ current mid = o.kind := by
  obtain ⟨z, us, rfl, hz⟩ := hzs
  have hhead : HeadOf o.kind (o.tokens ++ z :: us) := by
    refine ⟨o.significant.1, ?_⟩
    cases o with
    | mark k binds plain => exact ⟨_, _, rfl⟩
    | shift => exact ⟨_, _, rfl⟩
  have hcurrent := hstarts.current hgap hhead
  refine ⟨?_, hcurrent⟩
  obtain ⟨front, hflush, hfront⟩ := flush_starts hstarts hgap hhead
  have hdrop : mid.dropWhile (·.kind.isTrivia) = front := congrArg Step.rest hflush
  cases o with
  | mark k binds plain =>
      obtain ⟨a, more, rfl, -, -, hmore⟩ := starts_cons hfront
      obtain ⟨b, more, rfl, hb, -, -⟩ := starts_cons hmore
      have hshift : atRightShift mid = false := by
        simp [atRightShift, hdrop, hb, hz]
      have hprecedence : precedence? (current mid) = some (Operator.mark k binds plain).precedence := by
        rw [hcurrent]
        exact (Option.some_get binds).symm
      simp [operator?, hshift, hprecedence, Operator.tokens]
  | shift =>
      obtain ⟨a, more, rfl, ha, -, hmore⟩ := starts_cons hfront
      obtain ⟨b, more, rfl, hb, -, -⟩ := starts_cons hmore
      have hshift : atRightShift mid = true := by simp [atRightShift, hdrop, ha, hb]
      simp [operator?, hshift, Operator.tokens, Operator.precedence]

/-- The tokens of an operator are taken one by one, with the trivia before them. -/
theorem bumps (o : Operator) {gap : Stored} (hgap : Lead gap) :
    Reads Anything (all (List.replicate o.tokens.length bump)) (gap ++ o.tokens)
      (leaves gap ++ leaves o.tokens) := by
  cases o with
  | mark k binds plain =>
      have hsignificant := (Operator.mark k binds plain).significant
      exact (bump_reads hsignificant.1 hsignificant.2 (CodeMend.mark k) hgap).single
  | shift =>
      have hfirst := bump_reads (k := .gt) rfl nofun ">" hgap
      have hsecond := (bump_reads (k := .gt) rfl nofun ">" lead_nil).single
      have hboth := hfirst.cons hsecond fun _ _ _ _ => trivial
      simpa [Operator.tokens, leaves] using hboth

/-- Behind an operator its right operand is read, one level up but for `??`. -/
theorem rightOperand_eq (o : Operator) (inner : Rule → Parser) :
    rightOperand inner o.kind o.precedence = inner (.binary o.right) := by
  have hword : (o.kind == .isKw || o.kind == .asKw) = false := by
    cases o with
    | mark k binds plain => simp [Operator.kind, plain]
    | shift => rfl
  unfold right
  cases hright : o.groupsRight with
  | true =>
      have hkind : (o.kind == .questionQuestion) = true := hright
      funext ts
      simp [rightOperand, either, hword, hkind]
  | false =>
      have hkind : (o.kind == .questionQuestion) = false := hright
      funext ts
      simp [rightOperand, either, hword, hkind]

/-- Only `??` groups to the right, and it binds least. -/
theorem precedence_bounds (o : Operator) :
    o.precedence < Expression.signLevel ∧ (o.groupsRight = true → o.precedence = 1) ∧
      (o.groupsRight = false → 1 < o.precedence) := by
  cases o with
  | mark k binds plain =>
      have htable : ∀ k p, precedence? k = some p → p < 12 ∧ (k = .questionQuestion → p = 1) ∧
          (k ≠ .questionQuestion → 1 < p) := by
        intro k p h
        unfold precedence? at h
        split at h <;> cases h <;> decide
      obtain ⟨hbound, hone, hmore⟩ := htable k _ (Option.some_get binds).symm
      exact ⟨hbound, fun h => hone (by simpa [groupsRight, kind] using h),
        fun h => hmore (by simpa [groupsRight, kind] using h)⟩
  | shift => decide

end CodeMend.Operator

namespace CodeMend.Parse

open Tree Lexer

variable {xs ys lead : Stored} {ts rest : List Token} {t : Tree} {level bound : Nat}

/-- A row of steps behind another. -/
theorem Reads.append {A B : List Token → Prop} {ps qs : List Parser} {trees more : List Tree}
    (hps : Reads A (all ps) xs trees) (hqs : Reads B (all qs) ys more)
    (hlink : ∀ mid rest, Starts ys mid rest → B rest → A mid) :
    Reads B (all (ps ++ qs)) (xs ++ ys) (trees ++ more) := by
  intro ts rest hstarts hafter hcut
  rw [all_append] at hcut ⊢
  have hrow := hps.cons hqs hlink
  exact hrow ts rest hstarts hafter hcut

/-- One operator more in a climb. -/
theorem Climbs.binary {l r : Tree} {gap : Stored} (o : Operator) (hl : Climbs level bound l)
    (hlevel : level ≤ o.precedence) (hbound : o.precedence < bound)
    (hr : ∀ n lead, Lead lead →
      Reads (Stops o.right) (unfold n (.binary o.right)) (lead ++ r.tokens) (leaves lead ++ [r]))
    (hfit : Fit r.tokens) (hgap : Lead gap) :
    Climbs level o.right (.node .binaryExpression
      (l :: (leaves gap ++ (leaves o.tokens ++ (leaves gap ++ [r]))))) := by
  intro n ts rest hstarts hstops hcut
  simp only [tokens, tokensAll, tokensAll_append, tokensAll_leaves_stored, List.append_nil] at hstarts
  obtain ⟨mid, hstarts, hmid⟩ := starts_append hstarts
  have hright : ∃ z us, gap ++ r.tokens = z :: us ∧ z.1 ≠ .gt := by
    cases gap with
    | nil =>
        obtain ⟨k, hk, -, s, us, hus⟩ := hfit.head
        refine ⟨_, us, hus, ?_⟩
        rintro rfl
        exact absurd hk (by decide)
    | cons x gap =>
        refine ⟨x, gap ++ r.tokens, rfl, fun hx => ?_⟩
        have htrivia := hgap x List.mem_cons_self
        rw [hx] at htrivia
        cases htrivia
  obtain ⟨hoperator, hcurrent⟩ := o.found hmid hgap hright
  have hplain : Plain (kinds mid) := by
    refine hstops.plain.behind ?_ hmid
    simp only [bland_append]
    exact ⟨bland_lead hgap, o.bland_tokens, bland_lead hgap, hfit.bland⟩
  obtain ⟨m, hm⟩ := hl n ts mid hstarts ⟨hplain, Or.inr ⟨_, _, hoperator, hbound⟩⟩ hcut
  rw [hm] at hcut ⊢
  have hpick : binary? (unfold n) level mid = some (.binaryExpression,
      List.replicate o.tokens.length bump ++ [unfold n (.binary o.right)]) := by
    rcases binary_cases (unfold n) level mid with ⟨-, hloose⟩ | ⟨p, width, hnext, -, hpick⟩
    · exact absurd (hloose _ _ hoperator) (by omega)
    · rw [hoperator] at hnext
      obtain ⟨rfl, rfl⟩ := Prod.mk.inj (Option.some.inj hnext)
      rw [hpick, hcurrent, o.rightOperand_eq]
  have hrow := (o.bumps hgap).append (hr n gap hgap).single fun _ _ _ _ => trivial
  obtain ⟨m', hm'⟩ := wraps_turn hpick hrow (by simpa using hmid) hstops hcut
  exact ⟨m', by rw [hm']; simp⟩

/-! ## Primary expressions and what belongs to them -/

/-- A primary expression is reached as it is. -/
theorem suffixed_of_primary {k : Kind} (hsign : k ∉ signs) (hhead : HeadOf k t.tokens)
    (h : ∀ n, ∃ p, primary? (unfold n) k = some p ∧
      Reads (fun rest => Plain (kinds rest)) p t.tokens [t]) : Suffixed t := by
  refine ⟨⟨k, hsign, hhead⟩, ?_⟩
  intro n ts rest hstarts hplain hcut
  obtain ⟨p, hp, hreads⟩ := h n
  have hcurrent := hhead.current hstarts
  simp only [grown, hcurrent, hp] at hcut ⊢
  have hread := hreads ts rest hstarts hplain (Bool.or_eq_false_iff.1 hcut).1
  refine ⟨rest.length, ?_⟩
  unfold wrapped
  rw [hread]
  rfl

/-- A literal is a primary expression of one token. -/
theorem suffixed_literal {k : Kind} (hk : k = .intLiteral ∨ k = .stringLiteral) (s : String) :
    Suffixed (.node .literalExpression [.token k s]) := by
  have hkind : k.isTrivia = false ∧ k ≠ .endOfFile ∧ k.isLiteral = true ∧ k ∉ signs := by
    rcases hk with rfl | rfl <;> decide
  obtain ⟨hsignificant, hend, hliteral, hsign⟩ := hkind
  have hhead : HeadOf k [(k, s)] := ⟨hsignificant, s, [], rfl⟩
  refine suffixed_of_primary hsign hhead fun n => ⟨node .literalExpression [bump], ?_, ?_⟩
  · simp [primary?, hliteral]
  · exact ((bump_reads hsignificant hend s lead_nil).single.node lead_nil hhead).weaken
      fun _ _ => trivial

/-- A name is read with the trivia before it. -/
theorem identifierName_reads (s : String) (hlead : Lead lead) :
    Reads Anything identifierName (lead ++ [(.ident, s)])
      (leaves lead ++ [.node .identifierName [.token .ident s]]) :=
  (bump_reads (k := .ident) rfl nofun s lead_nil).single.node hlead ⟨rfl, s, [], rfl⟩

/-- A name is a primary expression of one token. -/
theorem suffixed_name (s : String) : Suffixed (.node .identifierName [.token .ident s]) :=
  suffixed_of_primary (k := .ident) (by decide) ⟨rfl, s, [], rfl⟩ fun _ =>
    ⟨identifierName, rfl, (identifierName_reads s lead_nil).weaken fun _ _ => trivial⟩

/-- A closing bracket or a comma ends an expression. -/
theorem stops_of_closer {k : Kind} {s : String} {zs gap : Stored} (hk : k ∈ closers)
    (hgap : Lead gap) (hzs : Bland zs) {mid : List Token}
    (hmid : Starts (gap ++ ((k, s) :: zs)) mid rest) (hrest : Plain (kinds rest)) :
    Stops 0 mid := by
  have hclosers : ∀ k ∈ closers, k.isTrivia = false ∧ k ≠ .fatArrow ∧ k ≠ .colon := by decide
  obtain ⟨hsignificant, hbland⟩ := hclosers k hk
  refine ⟨hrest.behind ?_ hmid, Or.inl ?_⟩
  · exact bland_append.2 ⟨bland_lead hgap, bland_cons.2 ⟨hbland, hzs⟩⟩
  · rw [hmid.current hgap ⟨hsignificant, s, zs, rfl⟩]
    exact hk

/-- An expression in parentheses. -/
theorem Whole.enclosed (h : Whole t) {gap : Stored} (hgap : Lead gap) :
    Suffixed (Expression.enclosed (leaves gap) t) := by
  have hhead : HeadOf .lParen (Expression.enclosed (leaves gap) t).tokens := ⟨rfl, _, _, rfl⟩
  refine suffixed_of_primary (by decide) hhead fun n =>
    ⟨node .parenthesizedExpression [bump, unfold n .expression, expect .rParen], rfl, ?_⟩
  have hopen := bump_reads (k := .lParen) rfl nofun "(" lead_nil
  have hclose := (expect_reads (k := .rParen) rfl nofun ")" hgap).single.weaken
    (B := fun rest => Plain (kinds rest)) fun _ _ => trivial
  have hinner := (h n gap hgap).cons hclose fun mid rest hmid hplain =>
    stops_of_closer (by decide) hgap bland_nil hmid hplain
  have hrow := hopen.cons hinner fun _ _ _ _ => trivial
  have hnode := hrow.node (k := .parenthesizedExpression) lead_nil
    (⟨rfl, _, _, rfl⟩ : HeadOf .lParen _)
  simpa [Expression.enclosed, tokens, tokensAll, tokensAll_append] using hnode

/-- What goes on with a tree makes it part of a larger one. -/
theorem Suffixed.extend (h : Suffixed t) {k : Kind} {row : List Tree} (ps : Nat → List Parser)
    (hpick : ∀ n ts rest, Starts (tokensAll row) ts rest → suffix? (unfold n) ts = some (k, ps n))
    (hbland : Bland (tokensAll row))
    (hrow : ∀ n, Reads (fun rest => Plain (kinds rest)) (all (ps n)) (tokensAll row) row) :
    Suffixed (.node k (t :: row)) := by
  obtain ⟨l, hl, hsignificant, s, us, hus⟩ := h.head
  refine ⟨⟨l, hl, hsignificant, s, us ++ tokensAll row, by simp [tokens, tokensAll, hus]⟩, ?_⟩
  intro n ts rest hstarts hrest hcut
  obtain ⟨mid, hstarts, hmid⟩ := starts_append hstarts
  obtain ⟨m, hm⟩ := h.grows n ts mid hstarts (hrest.behind hbland hmid) hcut
  rw [hm] at hcut ⊢
  exact wraps_turn (hpick n mid rest hmid) (hrow n) hmid hrest hcut

/-- A member of what a tree stands for. -/
theorem Suffixed.member (h : Suffixed t) (s : String) {gap : Stored} (hgap : Lead gap) :
    Suffixed (.node .memberAccessExpression (t :: (leaves gap ++ .token .dot "." ::
      (leaves gap ++ [.node .identifierName [.token .ident s]])))) := by
  have htokens : tokensAll (leaves gap ++ .token .dot "." ::
      (leaves gap ++ [.node .identifierName [.token .ident s]])) =
      gap ++ ((.dot, ".") :: (gap ++ [(.ident, s)])) := by
    simp [tokensAll, tokensAll_append, tokens]
  refine h.extend (fun _ => [bump, either (ahead .ident) identifierName
    (complain "Expected a member name")]) (fun n ts rest hstarts => ?_) ?_ fun n => ?_
  · rw [htokens] at hstarts
    have hcurrent := hstarts.current hgap ⟨rfl, _, _, rfl⟩
    simp only [suffix?, hcurrent]
  · rw [htokens]
    simp only [bland_append, bland_cons]
    exact ⟨bland_lead hgap, by decide, bland_lead hgap, by decide, bland_nil⟩
  · have hdot := bump_reads (k := .dot) rfl (by decide) "." hgap
    have hname : Reads Anything (either (ahead .ident) identifierName
        (complain "Expected a member name")) (gap ++ [(.ident, s)])
        (leaves gap ++ [.node .identifierName [.token .ident s]]) :=
      (identifierName_reads s hgap).either_pos fun ts rest hstarts _ => by
        simp [ahead, hstarts.current hgap (⟨rfl, s, [], rfl⟩ : HeadOf .ident _)]
    have hrow := hdot.cons (hname.single.weaken (B := fun rest => Plain (kinds rest))
      fun _ _ => trivial) fun _ _ _ _ => trivial
    rw [htokens]
    simpa using hrow

/-! ## Arguments -/

/-- An expression is read as an argument: it has no name and no modifier in front. -/
theorem argument_reads (hwhole : Whole t) (hfit : Fit t.tokens) (n : Nat) {gap : Stored}
    (hgap : Lead gap) :
    Reads (Stops 0) (argument (unfold n)) (gap ++ t.tokens) (leaves gap ++ [.node .argument [t]]) := by
  obtain ⟨k, hk, hhead⟩ := hfit.head
  -- an argument of an expression has neither a name nor a modifier
  have hnothing : Reads (fun rest => current rest ∈ starters ∧ Plain (kinds rest))
      (fun ts => if ahead .ident ts && aheadAt 1 .colon ts then all [bump, bump] ts
        else given (fun ts => [Kind.refKw, .outKw, .inKw].contains (current ts))
          (all [bump, given (atTypedName false) (unfold n .type)]) ts) [] [] := by
    intro ts rest hstarts hafter _
    obtain rfl := starts_nil hstarts
    obtain ⟨hcurrent, hplain⟩ := hafter
    have hstarters : ∀ k ∈ starters, k ≠ .semicolon ∧
      [Kind.refKw, .outKw, .inKw].contains k = false := by decide
    obtain ⟨hsemicolon, hmodifier⟩ := hstarters _ hcurrent
    simp only [hplain.second hsemicolon, given, either, hmodifier, Bool.and_false,
      Bool.false_eq_true, if_false, done]
  have hrow := hnothing.cons (hwhole n [] lead_nil).single fun mid rest hmid hstops =>
    ⟨by rw [hhead.current hmid]; exact hk,
      hstops.plain.behind hfit.bland hmid⟩
  exact hrow.node hgap hhead

/-- Arguments, with their commas and gaps, are bland if each of them is. -/
theorem bland_treeAll {es : List Expression} {gap : Stored} (hgap : Lead gap)
    (hes : ∀ e ∈ es, Bland (e.tree (leaves gap)).tokens) :
    Bland (tokensAll (Expression.treeAll (leaves gap) es)) := by
  induction es with
  | nil => exact bland_nil
  | cons e es ih =>
      obtain ⟨he, hes⟩ := List.forall_mem_cons.1 hes
      cases es with
      | nil =>
          simp only [Expression.treeAll, tokensAll_append, tokensAll_leaves_stored, tokensAll, tokens,
            List.append_nil, bland_append]
          exact ⟨bland_lead hgap, he⟩
      | cons f es =>
          simp only [Expression.treeAll, tokensAll_append, tokensAll_leaves_stored, tokensAll, tokens,
            List.append_nil, List.singleton_append, bland_append, bland_cons]
          exact ⟨bland_lead hgap, he, bland_lead hgap, by decide, ih hes⟩

/-- The test under which arguments go on. -/
theorem arguments_look {closing : Kind} (hclosing : closing ∉ starters) {ts : List Token}
    (h : current ts ∈ starters) : (!ahead closing ts && !atEnd ts) = true := by
  have hend : Kind.endOfFile ∉ starters := by decide
  have hclosing' : current ts ≠ closing := fun heq => hclosing (heq ▸ h)
  have hend' : current ts ≠ .endOfFile := fun heq => hend (heq ▸ h)
  simp [ahead, atEnd, hclosing', hend']

/-- An item was not cut if its turn was not. -/
theorem commaTurn_cut {item : Parser} {missing : Bool → List Token → Turn}
    (h : (commaTurn item missing ts).step.cut = false) : (item ts).cut = false := by
  simp only [commaTurn] at h
  split at h
  · exact (cut_andThen h).1
  · exact (cut_andThen h).1

/-- The last argument, and an argument before others. -/
theorem argument_turn (hwhole : Whole t) (hfit : Fit t.tokens) (n : Nat) {gap : Stored}
    (hgap : Lead gap) (hstarts : Starts (gap ++ t.tokens) ts rest) (hstops : Stops 0 rest)
    (hcut : (commaTurn (argument (unfold n)) (fun _ => stop done) ts).step.cut = false) :
    commaTurn (argument (unfold n)) (fun _ => stop done) ts =
      if ahead .comma rest then
        ⟨(⟨leaves gap ++ [.node .argument [t]], [], rest, false⟩ : Step).andThen bump, true⟩
      else ⟨⟨leaves gap ++ [.node .argument [t]], [], rest, false⟩, false⟩ := by
  have hread := argument_reads hwhole hfit n hgap ts rest hstarts hstops (commaTurn_cut hcut)
  simp only [commaTurn, hread, stop]
  split
  · rfl
  · simp [Step.andThen, done]

/-- The arguments of a call or an access to an element. -/
theorem arguments_reads {es : List Expression} {gap : Stored} (hgap : Lead gap)
    (hes : ∀ e ∈ es, Whole (e.tree (leaves gap)) ∧ Fit (e.tree (leaves gap)).tokens) (b : Brackets)
    (n : Nat) :
    Reads (fun rest => current rest = b.closing ∧ Plain (kinds rest))
      (arguments (unfold n) b.closing) (tokensAll (Expression.treeAll (leaves gap) es))
      (Expression.treeAll (leaves gap) es) := by
  have hclosing : b.closing ∈ closers ∧ b.closing ∉ starters ∧ b.closing ≠ .comma := by
    cases b <;> decide
  obtain ⟨hcloser, hstarter, hcomma⟩ := hclosing
  intro ts
  unfold arguments loop
  generalize ts.length = m
  induction es generalizing ts m with
  | nil =>
      intro rest hstarts hafter hcut
      obtain rfl := starts_nil hstarts
      have hlook : ahead b.closing ts = true := by simp [ahead, hafter.1]
      cases m with
      | zero => simp [turns, given, either, hlook, done, Expression.treeAll]
      | succ m => simp [turns, hlook, done, Expression.treeAll]
  | cons e es ih =>
      obtain ⟨⟨hwhole, hfit⟩, hes⟩ := List.forall_mem_cons.1 hes
      intro rest hstarts hafter hcut
      obtain ⟨more, hmore⟩ : ∃ more, Expression.treeAll (leaves gap) (e :: es) =
          leaves gap ++ [.node .argument [e.tree (leaves gap)]] ++ more := by
        cases es with
        | nil => exact ⟨[], by simp [Expression.treeAll]⟩
        | cons f es =>
            exact ⟨leaves gap ++ .token .comma "," :: Expression.treeAll (leaves gap) (f :: es), by
              simp [Expression.treeAll]⟩
      have hcurrent : current ts ∈ starters := by
        have hfront : Starts (gap ++ ((e.tree (leaves gap)).tokens ++ tokensAll more)) ts rest := by
          rw [hmore] at hstarts
          simpa [tokensAll_append, tokensAll, tokens] using hstarts
        exact hfit.current hfront hgap
      have hlook := arguments_look hstarter hcurrent
      have hargument : atArgument ts = true := by
        simp [atArgument, atExpression_of_starters hcurrent]
      cases m with
      | zero => simp [turns, given, either, hlook, giveUp] at hcut
      | succ m =>
          simp only [turns, hlook, if_true, hargument] at hcut ⊢
          -- the loop makes a turn, and that reads the first argument
          have hturnCut : (commaTurn (argument (unfold n)) (fun _ => stop done) ts).step.cut = false := by
            split at hcut
            · exact (cut_andThen hcut).1
            · exact hcut
          cases es with
          | nil =>
              have hstarts' : Starts (gap ++ (e.tree (leaves gap)).tokens) ts rest := by
                simpa [Expression.treeAll, tokensAll_append, tokensAll, tokens] using hstarts
              -- no comma follows the last argument, so the loop ends
              have hstops : Stops 0 rest := ⟨hafter.2, Or.inl (by rw [hafter.1]; exact hcloser)⟩
              have hnone : ahead .comma rest = false := by simp [ahead, hafter.1, hcomma]
              have hturn := argument_turn hwhole hfit n hgap hstarts' hstops hturnCut
              simp [hturn, hnone, Expression.treeAll]
          | cons f es =>
              have hstarts' : Starts ((gap ++ (e.tree (leaves gap)).tokens) ++ (gap ++
                  ((.comma, ",") :: tokensAll (Expression.treeAll (leaves gap) (f :: es))))) ts rest := by
                simpa [Expression.treeAll, tokensAll_append, tokensAll, tokens] using hstarts
              obtain ⟨mid, hstarts', hmid⟩ := starts_append hstarts'
              -- a comma follows the argument, and the loop goes on with the others
              have hstops : Stops 0 mid :=
                stops_of_closer (by decide) hgap
                  (bland_treeAll hgap fun e he => (hes e he).2.bland) hmid hafter.2
              have hsome : ahead .comma mid = true := by
                simp [ahead, hmid.current hgap (⟨rfl, _, _, rfl⟩ : HeadOf .comma _)]
              have hturn := argument_turn hwhole hfit n hgap hstarts' hstops hturnCut
              rw [hsome, if_pos rfl] at hturn
              rw [hturn] at hcut ⊢
              simp only [if_true] at hcut ⊢
              have hbumpCut := (cut_andThen (cut_andThen hcut).1).2
              have hmid' : Starts (gap ++ [(.comma, ",")] ++
                  tokensAll (Expression.treeAll (leaves gap) (f :: es))) mid rest := by
                simpa using hmid
              obtain ⟨mid', hcomma', hmid'⟩ := starts_append hmid'
              have hbump := bump_reads (k := .comma) rfl (by decide) "," hgap mid mid' hcomma' trivial hbumpCut
              rw [Step.andThen] at hcut ⊢
              simp only [hbump, Step.andThen] at hcut ⊢
              have hrest := ih hes mid' m rest hmid' hafter hcut
              simp [hrest, Expression.treeAll]

/-- Brackets are significant tokens that are neither arrows nor colons. -/
theorem brackets_kinds (b : Brackets) : b.opening.isTrivia = false ∧ b.opening ≠ .endOfFile ∧
    b.closing.isTrivia = false ∧ b.closing ≠ .endOfFile ∧
    (b.opening ≠ .fatArrow ∧ b.opening ≠ .colon) ∧ b.closing ≠ .fatArrow ∧ b.closing ≠ .colon := by
  cases b <;> decide

/-- The arguments in their brackets. -/
theorem brackets_reads {es : List Expression} {gap : Stored} (hgap : Lead gap)
    (hes : ∀ e ∈ es, Whole (e.tree (leaves gap)) ∧ Fit (e.tree (leaves gap)).tokens) (b : Brackets)
    (n : Nat) :
    Reads (fun rest => Plain (kinds rest))
      (node b.list [bump, arguments (unfold n) b.closing, expect b.closing])
      (gap ++ ((b.opening, mark b.opening) ::
        (tokensAll (Expression.treeAll (leaves gap) es) ++ (gap ++ [(b.closing, mark b.closing)]))))
      (leaves gap ++ [.node b.list (.token b.opening (mark b.opening) ::
        (Expression.treeAll (leaves gap) es ++ (leaves gap ++ [.token b.closing (mark b.closing)])))]) := by
  obtain ⟨hopen, hopenEnd, hclose, hcloseEnd, -, hbland⟩ := brackets_kinds b
  have hclosing := (expect_reads hclose hcloseEnd (mark b.closing) hgap).single.weaken
    (B := fun rest => Plain (kinds rest)) fun _ _ => trivial
  have harguments := (arguments_reads hgap hes b n).cons hclosing fun mid rest hmid hplain =>
    ⟨hmid.current hgap ⟨hclose, _, _, rfl⟩,
      hplain.behind (bland_append.2 ⟨bland_lead hgap, bland_cons.2 ⟨hbland, bland_nil⟩⟩) hmid⟩
  have hrow := (bump_reads hopen hopenEnd (mark b.opening) lead_nil).cons harguments
    fun _ _ _ _ => trivial
  simpa using hrow.node (k := b.list) hgap (⟨hopen, _, _, rfl⟩ : HeadOf b.opening _)

/-- A call, or an access to an element. -/
theorem Suffixed.applied (h : Suffixed t) {es : List Expression} {gap : Stored} (hgap : Lead gap)
    (hes : ∀ e ∈ es, Whole (e.tree (leaves gap)) ∧ Fit (e.tree (leaves gap)).tokens) (b : Brackets) :
    Suffixed (.node b.whole (t :: (leaves gap ++ [.node b.list (.token b.opening (mark b.opening) ::
      (Expression.treeAll (leaves gap) es ++
        (leaves gap ++ [.token b.closing (mark b.closing)])))]))) := by
  obtain ⟨hopen, -, -, -, hopenBland, hcloseBland⟩ := brackets_kinds b
  have htokens : tokensAll (leaves gap ++ [.node b.list (.token b.opening (mark b.opening) ::
      (Expression.treeAll (leaves gap) es ++
        (leaves gap ++ [.token b.closing (mark b.closing)])))]) =
      gap ++ ((b.opening, mark b.opening) :: (tokensAll (Expression.treeAll (leaves gap) es) ++
        (gap ++ [(b.closing, mark b.closing)]))) := by
    simp [tokensAll, tokensAll_append, tokens]
  refine h.extend (k := b.whole)
    (fun n => [node b.list [bump, arguments (unfold n) b.closing, expect b.closing]])
    (fun n ts rest hstarts => ?_) ?_ fun n => ?_
  · rw [htokens] at hstarts
    have hcurrent := hstarts.current hgap ⟨hopen, _, _, rfl⟩
    cases b with
    | round =>
        have hcurrent : current ts = .lParen := hcurrent
        simp only [suffix?, hcurrent]
        rfl
    | square =>
        have hcurrent : current ts = .lBracket := hcurrent
        simp only [suffix?, hcurrent]
        rfl
  · rw [htokens]
    simp only [bland_append, bland_cons]
    exact ⟨bland_lead hgap, hopenBland, bland_treeAll hgap fun e he => (hes e he).2.bland,
      bland_lead hgap, hcloseBland, bland_nil⟩
  · rw [htokens]
    exact (brackets_reads hgap hes b n).single

/-! ## Every expression -/

end CodeMend.Parse

namespace CodeMend.Expression

open Tree Lexer Parse

/-- How tightly the operator behind an expression may bind at most, so that the last operand of the
expression does not take it. -/
def limit : Expression → Nat
  | binary o _ _ => o.right
  | _ => signLevel

variable {gap : Stored} {e : Expression}

/-- An expression in parentheses starts with one. -/
theorem fit_enclosed {t : Tree} (hgap : Lead gap) (h : Fit t.tokens) :
    Fit (enclosed (leaves gap) t).tokens := by
  refine ⟨⟨.lParen, by decide, rfl, _, _, rfl⟩, ?_⟩
  simp only [enclosed, tokens, tokensAll, tokensAll_append, tokensAll_leaves_stored, List.append_nil,
    List.singleton_append, bland_append, bland_cons]
  exact ⟨by decide, bland_lead hgap, h.bland, bland_lead hgap, by decide, bland_nil⟩

/-- An operand starts as its expression does, or with a parenthesis. -/
theorem fit_treeIn (hgap : Lead gap) (level : Nat) (h : Fit (e.tree (leaves gap)).tokens) :
    Fit (treeIn (leaves gap) level e (e.tree (leaves gap))).tokens := by
  unfold treeIn
  split
  · exact fit_enclosed hgap h
  · exact h

/-- The tokens of an expression start as they should, without an arrow or a colon in them. -/
theorem fit_tree (hgap : Lead gap) (e : Expression) : Fit (e.tree (leaves gap)).tokens := by
  induction e using induct with
  | @literal k hk w =>
      have hkind : k ∈ starters ∧ k.isTrivia = false ∧ k ≠ .fatArrow ∧ k ≠ .colon := by
        rcases hk with rfl | rfl <;> decide
      obtain ⟨hstarter, hsignificant, hbland⟩ := hkind
      exact ⟨⟨k, hstarter, hsignificant, _, _, rfl⟩, bland_cons.2 ⟨hbland, bland_nil⟩⟩
  | name w =>
      exact ⟨⟨.ident, by decide, rfl, _, _, rfl⟩, bland_cons.2 ⟨by decide, bland_nil⟩⟩
  | paren e ih => exact fit_enclosed hgap ih
  | signed o e ih =>
      have hsigns : ∀ k ∈ signs, k ∈ starters ∧ k ≠ .fatArrow ∧ k ≠ .colon := by decide
      obtain ⟨hstarter, hbland⟩ := hsigns o.kind o.mem
      refine ⟨⟨o.kind, hstarter, isTrivia_sign o, _, _, rfl⟩, ?_⟩
      simp only [tree, tokens, tokensAll, tokensAll_append, tokensAll_leaves_stored, List.append_nil,
        List.singleton_append, bland_append, bland_cons]
      exact ⟨hbland, bland_lead hgap, (fit_treeIn hgap _ ih).bland⟩
  | member e n ih =>
      refine (fit_treeIn hgap suffixLevel ih).append ?_
      simp only [tokens, tokensAll, tokensAll_append, tokensAll_leaves_stored, List.append_nil,
        List.singleton_append, bland_append, bland_cons]
      exact ⟨bland_lead hgap, by decide, bland_lead hgap, by decide, bland_nil⟩
  | applied b e es ih ihs =>
      obtain ⟨-, -, -, -, hopen, hclose⟩ := brackets_kinds b
      refine (fit_treeIn hgap suffixLevel ih).append ?_
      simp only [tokens, tokensAll, tokensAll_append, tokensAll_leaves_stored, List.append_nil,
        List.singleton_append, bland_append, bland_cons]
      exact ⟨bland_lead hgap, hopen, bland_treeAll hgap fun e he => (ihs e he).bland,
        bland_lead hgap, hclose, bland_nil⟩
  | binary o l r ihl ihr =>
      refine (fit_treeIn hgap o.left ihl).append ?_
      simp only [tokensAll, tokensAll_append, tokensAll_leaves_stored, List.append_nil, bland_append]
      exact ⟨bland_lead hgap, o.bland_tokens, bland_lead hgap, (fit_treeIn hgap _ ihr).bland⟩

/-- What reads the tree of an expression, by how tightly it binds. -/
structure Readable (gap : Stored) (e : Expression) : Prop where
  suffixed : suffixLevel ≤ e.strength → Suffixed (e.tree (leaves gap))
  unary : signLevel ≤ e.strength → Unary (e.tree (leaves gap))
  climbs : ∀ level ≤ e.strength, Climbs level e.limit (e.tree (leaves gap))
  whole : Whole (e.tree (leaves gap))

/-- What starts with a sign is readable if it is read as an operand: as an operand of a suffix
it would have parentheses. -/
theorem Readable.of_unary (hgap : Lead gap) (hstrength : e.strength = signLevel)
    (hlimit : e.limit = signLevel) (h : Unary (e.tree (leaves gap))) : Readable gap e where
  suffixed := fun hle => absurd (hstrength ▸ hle) (by decide)
  unary := fun _ => h
  climbs := fun level _ => hlimit ▸ h.climbs level
  whole := (h.climbs 0).whole (fit_tree hgap e)

/-- A primary expression with its suffixes is readable in every way. -/
theorem Readable.of_suffixed (hgap : Lead gap) (hlimit : e.limit = signLevel)
    (h : Suffixed (e.tree (leaves gap))) : Readable gap e :=
  have hunary := h.unary (fit_tree hgap e)
  { suffixed := fun _ => h
    unary := fun _ => hunary
    climbs := fun level _ => hlimit ▸ hunary.climbs level
    whole := (hunary.climbs 0).whole (fit_tree hgap e) }

/-- An expression that needs no parentheses as a right operand lets its operator have what follows. -/
theorem right_le_limit {o : Operator} (h : o.right ≤ e.strength) : o.right ≤ e.limit := by
  obtain ⟨hbound, -, -⟩ := o.precedence_bounds
  have hright : o.right ≤ signLevel := by
    unfold Operator.right
    split <;> omega
  cases e with
  | binary o' l r =>
      have hstep : o'.precedence ≤ o'.right := by
        unfold Operator.right
        split <;> omega
      exact Nat.le_trans h hstep
  | literal | name | paren | signed | member | applied => exact hright

/-- An expression that needs no parentheses as a left operand leaves the operator behind it. -/
theorem lt_limit_of_left {o : Operator} (h : o.left ≤ e.strength) : o.precedence < e.limit := by
  obtain ⟨hbound, hone, hmore⟩ := o.precedence_bounds
  cases e with
  | binary o' l r =>
      obtain ⟨-, hone', hmore'⟩ := o'.precedence_bounds
      have h : o.left ≤ o'.precedence := h
      show o.precedence < o'.right
      unfold Operator.left at h
      unfold Operator.right
      cases hright : o.groupsRight <;> cases hright' : o'.groupsRight <;> simp_all <;> omega
  | literal | name | paren | signed | member | applied => exact hbound

namespace Readable

/-- An operand of a suffix is grown, in parentheses if need be. -/
theorem suffixedIn (h : Readable gap e) (hgap : Lead gap) :
    Suffixed (treeIn (leaves gap) suffixLevel e (e.tree (leaves gap))) := by
  unfold treeIn
  split
  · exact h.whole.enclosed hgap
  · exact h.suffixed (by omega)

/-- What stands in parentheses is an operand. -/
theorem unary_enclosed (h : Readable gap e) (hgap : Lead gap) :
    Unary (enclosed (leaves gap) (e.tree (leaves gap))) :=
  (h.whole.enclosed hgap).unary (fit_enclosed hgap (fit_tree hgap e))

/-- An operand of a sign is read as one, in parentheses if need be. -/
theorem unaryIn (h : Readable gap e) (hgap : Lead gap) :
    Unary (treeIn (leaves gap) signLevel e (e.tree (leaves gap))) := by
  unfold treeIn
  split
  · exact h.unary_enclosed hgap
  · exact h.unary (by omega)

/-- The right operand of an operator is read as one. -/
theorem rightIn (h : Readable gap e) (hgap : Lead gap) (o : Operator) (n : Nat) {lead : Stored}
    (hlead : Lead lead) :
    Reads (Stops o.right) (unfold n (.binary o.right))
      (lead ++ (treeIn (leaves gap) o.right e (e.tree (leaves gap))).tokens)
      (leaves lead ++ [treeIn (leaves gap) o.right e (e.tree (leaves gap))]) := by
  have hfit := fit_treeIn hgap o.right (fit_tree hgap e)
  unfold treeIn at hfit ⊢
  split at hfit
  · next hloose =>
    rw [if_pos hloose]
    have hright : o.right ≤ signLevel := by
      obtain ⟨hbound, -, -⟩ := o.precedence_bounds
      unfold Operator.right
      split <;> omega
    exact ((h.unary_enclosed hgap).climbs _).reads hright hfit n hlead
  · next htight =>
    rw [if_neg htight]
    exact (h.climbs _ (by omega)).reads (right_le_limit (by omega)) hfit n hlead

/-- The left operand of an operator is reached in a climb that goes on with the operator. -/
theorem leftIn (h : Readable gap e) (hgap : Lead gap) (o : Operator) {level : Nat}
    (hlevel : level ≤ o.precedence) :
    ∃ bound, o.precedence < bound ∧
      Climbs level bound (treeIn (leaves gap) o.left e (e.tree (leaves gap))) := by
  unfold treeIn
  split
  · exact ⟨signLevel, o.precedence_bounds.1, (h.unary_enclosed hgap).climbs _⟩
  · next htight =>
    have hleft : o.precedence ≤ o.left := by
      unfold Operator.left
      split <;> omega
    exact ⟨e.limit, lt_limit_of_left (by omega), h.climbs _ (by omega)⟩

end Readable

/-- **Every expression is read back** from its tokens, whatever trivia stands between them. -/
theorem readable (hgap : Lead gap) (e : Expression) : Readable gap e := by
  induction e using induct with
  | literal hk w => exact .of_suffixed hgap rfl (suffixed_literal hk w.text)
  | name w => exact .of_suffixed hgap rfl (suffixed_name w.text)
  | paren e ih => exact .of_suffixed hgap rfl (ih.whole.enclosed hgap)
  | signed o e ih => exact .of_unary hgap rfl rfl ((ih.unaryIn hgap).signed o hgap)
  | member e n ih => exact .of_suffixed hgap rfl ((ih.suffixedIn hgap).member n.text hgap)
  | applied b e es ih ihs =>
      exact .of_suffixed hgap rfl ((ih.suffixedIn hgap).applied hgap
        (fun a ha => ⟨(ihs a ha).whole, fit_tree hgap a⟩) b)
  | binary o l r ihl ihr =>
      have hclimbs : ∀ level ≤ o.precedence,
          Climbs level o.right ((binary o l r).tree (leaves gap)) := by
        intro level hlevel
        obtain ⟨bound, hbound, hl⟩ := ihl.leftIn hgap o hlevel
        exact hl.binary o hlevel hbound (fun n lead hlead => ihr.rightIn hgap o n hlead)
          (fit_treeIn hgap _ (fit_tree hgap r)) hgap
      have hstrength := o.precedence_bounds.1
      refine ⟨fun hle => ?_, fun hle => ?_, hclimbs, ?_⟩
      · exact absurd (show suffixLevel ≤ o.precedence from hle) (by simp [suffixLevel, signLevel] at *; omega)
      · exact absurd (show signLevel ≤ o.precedence from hle) (by omega)
      · exact (hclimbs 0 (Nat.zero_le _)).whole (fit_tree hgap _)

end CodeMend.Expression

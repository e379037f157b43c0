import CodeMend.Proofs.Parser.Shape

/-!
# How tightly operators bind

A binary expression is *grouped* if what stands before its operator binds at least as tightly as the
operator, what stands behind it more tightly (for `??` the other way round), and neither is a
condition, an assignment or a lambda (`Grouped`).

Operators are read by climbing: `binary level` takes an operand and then every operator that binds at
least as tightly as `level`, each with a right operand that binds more tightly.  So what is built so
far binds at least as tightly as the operator that comes next (`Climbing`), because the right operand
would have taken a tighter one.  A type behind `is` or `as` takes no operators at all.  A tighter
operator behind it therefore gets the whole test as its left operand; this is the only way in which a
binary expression fails to be grouped (`parse_grouped`), and there are texts where it happens
(`not_grouped`).
-/

namespace CodeMend

namespace Tree

/-- Is it a token other than trivia? -/
def isLexeme (t : Tree) : Bool := t.isToken && !t.isTrivia

/-- The children before the operator of a binary expression. -/
def beforeOperator (cs : List Tree) : List Tree := cs.takeWhile fun t => !t.isLexeme

/-- The operator of a binary expression and the children behind it. -/
def fromOperator (cs : List Tree) : List Tree := cs.dropWhile fun t => !t.isLexeme

/-- How tightly the operator of a binary expression binds; two `>` without a gap are a shift. -/
def strength? (cs : List Tree) : Option Nat :=
  match fromOperator cs with
  | .token .gt _ :: .token .gt _ :: _ => some Parse.shiftPrecedence
  | .token k _ :: _ => Parse.precedence? k
  | _ => none

/-- How tightly a binary expression binds; nothing else does. -/
def binds? : Tree → Option Nat
  | .node .binaryExpression cs => strength? cs
  | _ => none

/-- Is the operator a token of kind `k`? -/
def isOperator (k : Kind) (cs : List Tree) : Bool := (fromOperator cs).head?.any (·.isTokenOf k)

/-- A condition, an assignment or a lambda. -/
def isOpenEnded (t : Tree) : Bool :=
  t.isNodeOf .conditionalExpression || t.isNodeOf .assignmentExpression ||
    t.isNodeOf .lambdaExpression

/-- The children of a binary expression whose operator binds as tightly as `p` are grouped by
precedence and associativity. -/
structure Grouped (p : Nat) (cs : List Tree) : Prop where
  left : ∀ t ∈ beforeOperator cs, ∀ q ∈ t.binds?,
    if isOperator .questionQuestion cs then p < q else p ≤ q
  right : ∀ t ∈ (fromOperator cs).tail, ∀ q ∈ t.binds?,
    if isOperator .questionQuestion cs then p ≤ q else p < q
  plain : ∀ t ∈ cs, t.isOpenEnded = false

instance (p : Nat) (cs : List Tree) : Decidable (Grouped p cs) :=
  decidable_of_iff (_ ∧ _ ∧ _) ⟨fun h => ⟨h.1, h.2.1, h.2.2⟩, fun h => ⟨h.1, h.2, h.3⟩⟩

/-- An `is` or `as` with a type on its right. -/
def isTypeTest : Tree → Bool
  | .node .binaryExpression cs =>
    (isOperator .isKw cs || isOperator .asKw cs) && cs.any (·.isNodeOf .type)
  | _ => false

/-- No token but trivia stands in the row. -/
def Wordless (cs : List Tree) : Prop := ∀ t ∈ cs, t.isLexeme = false

section Row

variable {left right : List Tree} {k : Kind} {s : String}

/-- The operator of a row is its first lexeme, so the row before it is what has none. -/
theorem beforeOperator_eq (hleft : Wordless left) (hk : k.isTrivia = false) :
    beforeOperator (left ++ .token k s :: right) = left := by
  rw [beforeOperator, List.takeWhile_append_of_pos fun t ht => by simp [hleft t ht]]
  simp [isLexeme, isToken, isTrivia, hk]

/-- The row from the operator on starts with that lexeme. -/
theorem fromOperator_eq (hleft : Wordless left) (hk : k.isTrivia = false) :
    fromOperator (left ++ .token k s :: right) = .token k s :: right := by
  rw [fromOperator, List.dropWhile_append_of_pos fun t ht => by simp [hleft t ht]]
  simp [isLexeme, isToken, isTrivia, hk]

end Row

end Tree

namespace Parse

open Tree

/-! ## Operators -/

/-- The tokens of an operator that starts with one of kind `k`. -/
inductive IsOperator : List Tree → Kind → Nat → Prop
  | word {k : Kind} {p : Nat} (s : String) (h : precedence? k = some p) :
      IsOperator [.token k s] k p
  | shift (s s' : String) : IsOperator [.token .gt s, .token .gt s'] .gt shiftPrecedence

/-- Trivia are no operators. -/
theorem precedence_significant {k : Kind} {p : Nat} (h : precedence? k = some p) :
    k.isTrivia = false := by
  cases k <;> first | rfl | cases h

/-- Every operator in the table has a precedence of at least one. -/
theorem precedence_pos {k : Kind} {p : Nat} (h : precedence? k = some p) : 1 ≤ p := by
  cases k <;> simp [precedence?] at h <;> omega

/-- Every operator that is found has a precedence of at least one. -/
theorem operator_pos {ts : List Token} {p width : Nat} (h : operator? ts = some (p, width)) :
    1 ≤ p := by
  unfold operator? at h
  split at h
  · simp only [Option.some.injEq, Prod.mk.injEq] at h
    simp [← h.1, shiftPrecedence]
  · obtain ⟨q, hq, hpair⟩ := Option.map_eq_some_iff.1 h
    simp only [Prod.mk.injEq] at hpair
    exact hpair.1 ▸ precedence_pos hq

section Row

variable {left op right : List Tree} {k : Kind} {p : Nat}

/-- A row with an operator in it is taken apart before that operator. -/
theorem IsOperator.row (hop : IsOperator op k p) (hleft : Wordless left) (right : List Tree) :
    beforeOperator (left ++ op ++ right) = left ∧
      ∃ s more, fromOperator (left ++ op ++ right) = .token k s :: (more ++ right) ∧
        ∀ t ∈ more, t.isNode = false := by
  cases hop with
  | word s h =>
      have hk := precedence_significant h
      rw [List.append_assoc]
      exact ⟨beforeOperator_eq hleft hk, s, [], fromOperator_eq hleft hk, by simp⟩
  | shift s s' =>
      rw [List.append_assoc]
      exact ⟨beforeOperator_eq hleft rfl, s, [.token .gt s'], fromOperator_eq hleft rfl,
        by simp [isNode, isToken]⟩

/-- Such a row binds as tightly as its operator, if no lexeme stands behind it that could make a
shift. -/
theorem IsOperator.strength (hop : IsOperator op k p) (hleft : Wordless left)
    (hright : Wordless right) : strength? (left ++ op ++ right) = some p := by
  rw [List.append_assoc]
  cases hop with
  | word s h =>
      rw [strength?, List.singleton_append, fromOperator_eq hleft (precedence_significant h)]
      -- a second `>` would be a word behind the operator
      split
      · next heq =>
        obtain ⟨-, rfl⟩ := List.cons.inj heq
        exact nomatch hright _ List.mem_cons_self
      · next heq =>
        obtain ⟨hhead, -⟩ := List.cons.inj heq
        cases hhead
        exact h
      · next hnot => exact absurd rfl (hnot _ _ _)
  | shift s s' =>
      rw [strength?, List.cons_append, fromOperator_eq hleft rfl]
      rfl

/-- The kind of the operator of a row is that of its first token. -/
theorem IsOperator.isOperator_eq (hop : IsOperator op k p) (hleft : Wordless left)
    (right : List Tree) (l : Kind) : isOperator l (left ++ op ++ right) = (l == k) := by
  obtain ⟨-, s, more, hfrom, -⟩ := hop.row hleft right
  rw [isOperator, hfrom]
  rfl

end Row

/-- A significant token at the front is taken alone. -/
theorem bump_cons {t : Token} {ts : List Token} (h : t.kind.isTrivia = false)
    (hne : t.kind ≠ .endOfFile) : bump (t :: ts) = ⟨[leaf t], [], ts, false⟩ := by
  simp [bump, all, flush, take, Step.andThen, done, h, hne]

/-- Before a right shift, both its halves are taken. -/
theorem bump_bump_shift {ts : List Token} (h : atRightShift ts = true) :
    current ts = .gt ∧ ∃ a b rest, a.kind = .gt ∧ b.kind = .gt ∧
      all [bump, bump] ts = ⟨(flush ts).built ++ [leaf a, leaf b], [], rest, false⟩ := by
  unfold atRightShift at h
  split at h
  · next a b rest hdrop =>
    simp only [Bool.and_eq_true, beq_iff_eq] at h
    have hready : Ready (a :: b :: rest) := hdrop ▸ flush_ready ts
    have hcurrent : current ts = .gt := by
      rw [← current_flush, show (flush ts).rest = a :: b :: rest from hdrop, current_eq,
        significant_cons_of_ready hready]
      exact h.1
    refine ⟨hcurrent, a, b, rest, h.1, h.2, ?_⟩
    have hfirst : bump ts = ⟨(flush ts).built ++ [leaf a], [], b :: rest, false⟩ := by
      simp [bump, all, flush, take, Step.andThen, done, hdrop, h.1]
    rw [all_pair]
    show (bump ts).andThen bump = _
    rw [hfirst, Step.andThen, bump_cons (by rw [h.2]; rfl) (by simp [h.2])]
    simp
  · cases h

/-- Two sequences of parsers, one behind the other, are run one after the other. -/
theorem all_append (ps qs : List Parser) (ts : List Token) :
    all (ps ++ qs) ts = (all ps ts).andThen (all qs) := by
  induction ps generalizing ts with
  | nil => simp [all, Step.andThen, done]
  | cons p ps ih => simp [all, Step.andThen, ih, Bool.or_assoc]

/-- What is built where an operator comes next: the trivia before it, its tokens and what the parser
behind it builds. -/
theorem operator_step {ts : List Token} {p width : Nat} (h : operator? ts = some (p, width))
    (right : Parser) :
    ∃ op us, IsOperator op (current ts) p ∧
      all (List.replicate width bump ++ [right]) ts =
        ⟨(flush ts).built ++ op ++ (right us).built, (right us).errors, (right us).rest,
          (right us).cut⟩ := by
  rw [all_append, all_single]
  unfold operator? at h
  split at h
  · next hshift =>
    obtain ⟨rfl, rfl⟩ := Prod.mk.inj (Option.some.inj h)
    obtain ⟨hcurrent, a, b, rest, ha, hb, hbumps⟩ := bump_bump_shift hshift
    refine ⟨[leaf a, leaf b], rest, ?_, ?_⟩
    · rw [hcurrent, leaf, leaf, ha, hb]
      exact .shift a.text b.text
    · show (all [bump, bump] ts).andThen right = _
      rw [hbumps]
      simp [Step.andThen]
  · obtain ⟨q, hq, hpair⟩ := Option.map_eq_some_iff.1 h
    obtain ⟨rfl, rfl⟩ := Prod.mk.inj hpair
    have hend : atEnd ts = false := by
      refine Bool.eq_false_iff.2 fun hend => ?_
      rw [(atEnd_iff ts).1 hend] at hq
      cases hq
    obtain ⟨text, rest, hbump⟩ := bump_eq hend
    refine ⟨[.token (current ts) text], rest, .word text hq, ?_⟩
    show (all [bump] ts).andThen right = _
    rw [all_single, hbump]
    simp [Step.andThen]

/-- Only `??` binds as loosely as it does. -/
theorem IsOperator.one_lt {op : List Tree} {k : Kind} {p : Nat} (h : IsOperator op k p)
    (hk : k ≠ .questionQuestion) : 1 < p := by
  cases h with
  | word s h => cases k <;> simp [precedence?] at h hk <;> omega
  | shift s s' => decide

/-- The precedence of `??` is the lowest one. -/
theorem IsOperator.eq_one {op : List Tree} {p : Nat} (h : IsOperator op .questionQuestion p) :
    p = 1 := by
  cases h with
  | word s h => exact (Option.some.inj h).symm

/-! ## Operands -/

/-- Is it a node that is neither a binary expression nor loose? -/
def isTight (t : Tree) : Bool := t.isNode && !t.isNodeOf .binaryExpression && !t.isOpenEnded

/-- A node that is not loose and, if it is a binary expression, binds at least as tightly as
`level`. -/
structure Binds (level : Nat) (t : Tree) : Prop where
  node : t.isNode = true
  plain : t.isOpenEnded = false
  level_le : ∀ q ∈ t.binds?, level ≤ q

/-- A parser that builds nothing but trivia and what has the property. -/
def Offers (Q : Tree → Prop) (p : Parser) : Prop :=
  ∀ ts, (p ts).cut = false → ∀ t ∈ (p ts).built, t.isTrivia = true ∨ Q t

/-- What the operands of the grammar are, and where a climb stops. -/
structure Operands (inner : Rule → Parser) : Prop where
  type : Offers (fun t => t.isNodeOf .type = true) (inner .type)
  typed : ∀ ts, startsType ts = true → (inner .type ts).cut = false →
    ∃ t ∈ (inner .type ts).built, t.isNodeOf .type = true
  unary : Offers (fun t => isTight t = true) (inner .unary)
  binary : ∀ level, Offers (Binds level) (inner (.binary level))
  stops : ∀ level ts, (inner (.binary level) ts).cut = false →
    ∀ p width, operator? (inner (.binary level) ts).rest = some (p, width) → p < level

/-- Only binary expressions bind. -/
theorem binds_eq_none {t : Tree} (h : t.isNodeOf .binaryExpression = false) : t.binds? = none := by
  unfold binds?
  split
  · simp [isNodeOf] at h
  · rfl

/-- What is no binary expression binds at every level. -/
theorem Binds.of_tight {t : Tree} (h : isTight t = true) (level : Nat) : Binds level t := by
  simp only [isTight, Bool.and_eq_true, Bool.not_eq_true'] at h
  exact ⟨h.1.1, h.2, by rw [binds_eq_none h.1.2]; nofun⟩

/-- Whether a node is tight depends on its kind only. -/
theorem tight_of_isNodeOf {t : Tree} {k : Kind} (h : t.isNodeOf k = true)
    (hk : isTight (.node k []) = true) : isTight t = true := by
  cases t with
  | token l s => cases h
  | node l cs =>
      obtain rfl : k = l := by simpa [isNodeOf] using h
      exact hk

/-- A parser that offers more offers less. -/
theorem Offers.mono {Q Q' : Tree → Prop} (h : ∀ t, Q t → Q' t) {p : Parser} (hp : Offers Q p) :
    Offers Q' p := fun ts hcut t ht => (hp ts hcut t ht).imp_right (h t)

/-- Parsers in order offer what each of them offers. -/
theorem Offers.seq {Q : Tree → Prop} {p q : Parser} (hp : Offers Q p) (hq : Offers Q q) :
    Offers Q (fun ts => (p ts).andThen q) := by
  intro ts hcut t ht
  obtain ⟨hpCut, hqCut⟩ := Bool.or_eq_false_iff.1 hcut
  rcases List.mem_append.1 ht with ht | ht
  · exact hp ts hpCut t ht
  · exact hq _ hqCut t ht

/-- Trivia that are put in place are trivia. -/
theorem flush_offers (Q : Tree → Prop) : Offers Q flush := by
  intro ts _ t ht
  obtain ⟨token, htoken, rfl⟩ := List.mem_map.1 ht
  exact Or.inl (by simpa [leaf, isTrivia] using List.mem_takeWhile_imp htoken)

/-- A complaint offers nothing. -/
theorem complain_offers (Q : Tree → Prop) (message : String) : Offers Q (complain message) :=
  fun _ _ _ ht => nomatch ht

/-- A parser behind the trivia that is put in place. -/
theorem Offers.flushed {Q : Tree → Prop} {p : Parser} (hp : Offers Q p) :
    Offers Q (all [flush, p]) := by
  rw [all_pair]
  exact (flush_offers Q).seq hp

/-- A node offers what holds of all nodes of its kind. -/
theorem node_offers {Q : Tree → Prop} {k : Kind} (h : ∀ cs, Q (.node k cs)) (ps : List Parser) :
    Offers Q (node k ps) := by
  refine Offers.flushed fun ts _ t ht => ?_
  obtain rfl := List.mem_singleton.1 ht
  exact Or.inr (h _)

/-- A choice offers what both of its branches do. -/
theorem either_offers {Q : Tree → Prop} {look : Look} {p q : Parser} (hp : Offers Q p)
    (hq : Offers Q q) : Offers Q (either look p q) := by
  intro ts hcut
  unfold either at hcut ⊢
  split at hcut
  · next hlook => rw [if_pos hlook]; exact hp ts hcut
  · next hlook => rw [if_neg hlook]; exact hq ts hcut

/-- What wraps an operand offers what holds of all nodes that it picks, by induction on the
times it wraps. -/
theorem wraps_offers {Q : Tree → Prop} {pick : List Token → Option (Kind × List Parser)}
    (hpick : ∀ ts k ps, pick ts = some (k, ps) → ∀ cs, Q (.node k cs)) (n : Nat)
    {built : List Tree} (hbuilt : ∀ t ∈ built, t.isTrivia = true ∨ Q t) (ts : List Token) :
    ∀ t ∈ (wraps pick n built ts).built, t.isTrivia = true ∨ Q t := by
  induction n generalizing built ts with
  | zero => exact hbuilt
  | succ n ih =>
      cases hp : pick ts with
      | none => simpa only [wraps, hp, emit] using hbuilt
      | some found =>
          obtain ⟨k, ps⟩ := found
          simp only [wraps, hp]
          refine ih (fun t ht => ?_) _
          obtain rfl := List.mem_singleton.1 ht
          exact Or.inr (hpick ts k ps hp _)

/-- An operand with what wraps it offers what both do. -/
theorem wrapped_offers {Q : Tree → Prop} {p : Parser}
    {pick : List Token → Option (Kind × List Parser)} (hp : Offers Q p)
    (hpick : ∀ ts k ps, pick ts = some (k, ps) → ∀ cs, Q (.node k cs)) :
    Offers Q (wrapped p pick) := fun ts hcut =>
  wraps_offers hpick _ (hp ts (Bool.or_eq_false_iff.1 hcut).1) _

section Phrases

variable {self : Rule → Parser}

/-- A type is a node for a type. -/
theorem typePhrase_offers : Offers (fun t => t.isNodeOf .type = true) (typePhrase self) :=
  either_offers (node_offers (fun _ => rfl) _)
    (either_offers (node_offers (fun _ => rfl) _) (complain_offers _ _))

/-- Where a type can start, there is one. -/
theorem typePhrase_typed {ts : List Token} (h : startsType ts = true) :
    ∃ t ∈ (typePhrase self ts).built, t.isNodeOf .type = true := by
  have hnode : ∀ ps, ∃ t ∈ (node .type ps ts).built, t.isNodeOf .type = true := by
    intro ps
    refine ⟨.node .type (all ps (flush ts).rest).built, ?_, rfl⟩
    rw [node, all_pair]
    exact List.mem_append_right _ List.mem_cons_self
  simp only [typePhrase, either, h, if_true]
  split
  · exact hnode _
  · exact hnode _

/-- Primary expressions are tight. -/
theorem primary_offers (hs : Operands self) {k : Kind} {p : Parser}
    (h : primary? self k = some p) : Offers (fun t => isTight t = true) p := by
  have hnode : ∀ {k : Kind}, isTight (.node k []) = true → ∀ ps : List Parser,
      Offers (fun t => isTight t = true) (node k ps) := fun hk ps => node_offers (fun _ => hk) ps
  unfold primary? at h
  split at h
  · cases h; exact hnode rfl _
  split at h
  · cases h; exact hs.type.mono fun t ht => tight_of_isNodeOf ht rfl
  split at h <;> cases h
  · exact hnode rfl _
  · exact hnode rfl _
  · exact hnode rfl _
  · exact hnode rfl _
  · exact hnode rfl _
  · exact hnode rfl _
  · exact hnode rfl _
  · exact hnode rfl _

/-- Every suffix makes a tight node. -/
theorem suffix_tight {ts : List Token} {k : Kind} {ps : List Parser}
    (h : suffix? self ts = some (k, ps)) : isTight (.node k []) = true := by
  unfold suffix? at h
  split at h <;> cases h <;> rfl

/-- Operands are tight. -/
theorem unaryPhrase_offers (hs : Operands self) :
    Offers (fun t => isTight t = true) (unaryPhrase self) := by
  show Offers _ (either (fun ts => [Kind.bang, .minus, .plus, .tilde, .plusPlus,
    .minusMinus].contains (current ts)) _ _)
  refine either_offers (node_offers (fun _ => rfl) _) (Offers.flushed ?_)
  intro ts hcut
  dsimp only at hcut ⊢
  cases hp : primary? self (current ts) with
  | none => exact complain_offers _ _ ts (by simp [complain])
  | some p =>
      simp only [hp] at hcut ⊢
      exact wrapped_offers (primary_offers hs hp) (fun _ _ _ hsuffix _ => suffix_tight hsuffix) ts hcut

end Phrases

/-! ## Climbing -/

/-- What is built so far binds at least as tightly as the operator that comes next, unless it ends
with a type. -/
structure Climbing (level : Nat) (built : List Tree) (ts : List Token) : Prop where
  row : ∀ t ∈ built, t.isTrivia = true ∨ Binds level t
  next : ∀ t ∈ built, t.isTypeTest = false → ∀ q ∈ t.binds?, ∀ p width,
    operator? ts = some (p, width) → p ≤ q ∧ 1 < q

/-- The children of a binary expression are grouped, except that a type test may stand before the
operator. -/
structure Nested (p : Nat) (cs : List Tree) : Prop where
  left : ∀ t ∈ beforeOperator cs, t.isTypeTest = false → ∀ q ∈ t.binds?,
    if isOperator .questionQuestion cs then p < q else p ≤ q
  right : ∀ t ∈ (fromOperator cs).tail, ∀ q ∈ t.binds?,
    if isOperator .questionQuestion cs then p ≤ q else p < q
  plain : ∀ t ∈ cs, t.isOpenEnded = false

/-- Every binary expression has an operator and is nested as its operator asks. -/
def Bound (k : Kind) (cs : List Tree) : Prop :=
  k = .binaryExpression → ∃ p ∈ strength? cs, Nested p cs

/-- What stands behind an operator of kind `k` that binds as tightly as `p`. -/
def rightOperand (inner : Rule → Parser) (k : Kind) (p : Nat) : Parser :=
  either (fun ts => (k == .isKw || k == .asKw) && startsType ts && !aheadAt 1 .dot ts)
    (inner .type)
    (either (fun _ => k == .questionQuestion) (inner (.binary p)) (inner (.binary (p + 1))))

/-- The level at which the right operand of an operator is read. -/
def rightLevel (k : Kind) (p : Nat) : Nat := if k == .questionQuestion then p else p + 1

/-- A right operand binds as tightly as the level at which it is read. -/
theorem rightOperand_offers {inner : Rule → Parser} (hs : Operands inner) (k : Kind) (p : Nat) :
    Offers (Binds (rightLevel k p)) (rightOperand inner k p) := by
  refine either_offers (hs.type.mono fun t ht => .of_tight (tight_of_isNodeOf ht rfl) _) ?_
  unfold rightLevel either
  cases k == .questionQuestion with
  | true => exact hs.binary p
  | false => exact hs.binary (p + 1)

/-- A right operand is a type, or it leaves no operator that it could have taken. -/
theorem rightOperand_stops {inner : Rule → Parser} (hs : Operands inner) (k : Kind) (p : Nat)
    {ts : List Token} (hcut : (rightOperand inner k p ts).cut = false) :
    ((k = .isKw ∨ k = .asKw) ∧
        ∃ t ∈ (rightOperand inner k p ts).built, t.isNodeOf .type = true) ∨
      ∀ q width, operator? (rightOperand inner k p ts).rest = some (q, width) →
        q < rightLevel k p := by
  unfold rightOperand either at hcut ⊢
  split at hcut
  · next h =>
    rw [if_pos h]
    simp only [Bool.and_eq_true, Bool.or_eq_true, beq_iff_eq] at h
    exact Or.inl ⟨h.1.1, hs.typed ts h.1.2 hcut⟩
  · next h =>
    rw [if_neg h]
    right
    unfold rightLevel
    cases hk : k == .questionQuestion with
    | true => simp only [hk, if_true] at hcut ⊢; exact hs.stops p ts hcut
    | false => simp only [hk, Bool.false_eq_true, if_false] at hcut ⊢; exact hs.stops _ ts hcut

/-- Trivia and operands are no lexemes. -/
theorem isLexeme_of {level : Nat} {t : Tree} (h : t.isTrivia = true ∨ Binds level t) :
    t.isLexeme = false := by
  rcases h with h | h
  · simp [isLexeme, h]
  · have hnode := h.node
    simp only [isNode, Bool.not_eq_true'] at hnode
    simp [isLexeme, hnode]

/-- Trivia and operands are not open-ended. -/
theorem isOpenEnded_of {level : Nat} {t : Tree} (h : t.isTrivia = true ∨ Binds level t) :
    t.isOpenEnded = false := by
  rcases h with h | h
  · cases t with
    | token k s => rfl
    | node k cs => cases h
  · exact h.plain

/-- An operator is made of tokens. -/
theorem IsOperator.tokens {op : List Tree} {k : Kind} {p : Nat} (h : IsOperator op k p) {t : Tree}
    (ht : t ∈ op) : t.isNode = false := by
  cases h with
  | word s h => rw [List.mem_singleton.1 ht]; rfl
  | shift s s' =>
      rcases List.mem_cons.1 ht with rfl | ht
      · rfl
      · rw [List.mem_singleton.1 ht]; rfl

/-- A token does not bind. -/
theorem binds_of_not_node {t : Tree} (h : t.isNode = false) : t.binds? = none := by
  cases t with
  | token k s => rfl
  | node k cs => cases h

/-- Trivia are no nodes. -/
theorem not_node_of_isTrivia {t : Tree} (h : t.isTrivia = true) : t.isNode = false := by
  cases t with
  | token k s => rfl
  | node k cs => cases h

section Step

variable {inner : Rule → Parser} {level p width : Nat} {built op : List Tree} {ts us : List Token}

/-- Putting trivia in place adds no operands to a climb. -/
theorem Climbing.flushed (h : Climbing level built ts) :
    ∀ t ∈ built ++ (flush ts).built, t.isTrivia = true ∨ Binds level t :=
  List.forall_mem_append.2 ⟨h.row, flush_offers _ ts rfl⟩

/-- **One operator.**  The node over what is built so far, the operator and its right operand is
nested as the operator asks, and the climb can go on from it. -/
theorem Climbing.step (hs : Operands inner) (h : Climbing level built ts)
    (hnext : operator? ts = some (p, width)) (hlevel : level ≤ p)
    (hop : IsOperator op (current ts) p)
    (hcut : (rightOperand inner (current ts) p us).cut = false) {cs : List Tree}
    (hcs : cs = built ++ (flush ts).built ++ op ++ (rightOperand inner (current ts) p us).built) :
    Bound .binaryExpression cs ∧
      Climbing level [.node .binaryExpression cs] (rightOperand inner (current ts) p us).rest := by
  have hleft := h.flushed
  have hright := rightOperand_offers hs (current ts) p us hcut
  have hleftWords : Wordless (built ++ (flush ts).built) := fun t ht => isLexeme_of (hleft t ht)
  have hrightWords : Wordless (rightOperand inner (current ts) p us).built :=
    fun t ht => isLexeme_of (hright t ht)
  have hstrength : strength? cs = some p := hcs ▸ hop.strength hleftWords hrightWords
  obtain ⟨hbefore, s, more, hfrom, hmore⟩ := hop.row hleftWords
    (rightOperand inner (current ts) p us).built
  have hkind := hop.isOperator_eq hleftWords (rightOperand inner (current ts) p us).built
  rw [← hcs] at hbefore hfrom hkind
  -- the node: what stands left of the operator came before it in the climb, what stands right of it
  have hnested : Nested p cs := by
    refine ⟨?_, ?_, ?_⟩
    · intro t ht htest q hq
      rw [hbefore] at ht
      have hmem : t ∈ built := by
        refine (List.mem_append.1 ht).resolve_right fun hflush => ?_
        have htrivia := (flush_offers (fun _ => False) ts rfl t hflush).resolve_right id
        rw [binds_of_not_node (not_node_of_isTrivia htrivia)] at hq
        cases hq
      obtain ⟨hle, hlt⟩ := h.next t hmem htest q hq p width hnext
      rw [hkind]
      split
      · next hcoalesces =>
        rw [← beq_iff_eq.1 hcoalesces] at hop
        rw [hop.eq_one]
        exact hlt
      · exact hle
    · intro t ht q hq
      rw [hfrom, List.tail_cons] at ht
      rcases List.mem_append.1 ht with ht | ht
      · rw [binds_of_not_node (hmore t ht)] at hq
        cases hq
      · have hbinds := (hright t ht).resolve_left fun htrivia => by
          rw [binds_of_not_node (not_node_of_isTrivia htrivia)] at hq
          cases hq
        have hle := hbinds.level_le q hq
        rw [hkind]
        unfold rightLevel at hle
        rw [Bool.beq_comm] at hle
        cases hcoalesces : Kind.questionQuestion == current ts with
        | true => simpa [hcoalesces] using hle
        | false => simpa [hcoalesces, Nat.succ_le_iff] using hle
    · intro t ht
      rw [hcs] at ht
      rcases List.mem_append.1 ht with ht | ht
      · rcases List.mem_append.1 ht with ht | ht
        · exact isOpenEnded_of (hleft t ht)
        · have htoken := hop.tokens ht
          cases t with
          | token k s => rfl
          | node k cs => cases htoken
      · exact isOpenEnded_of (hright t ht)
  -- the climb goes on from the node, which binds as tightly as its operator
  refine ⟨fun _ => ⟨p, hstrength, hnested⟩, ?_, ?_⟩
  · intro t ht
    obtain rfl := List.mem_singleton.1 ht
    refine Or.inr ⟨rfl, rfl, fun q hq => ?_⟩
    obtain rfl : p = q := Option.some.inj (hstrength.symm.trans hq)
    exact hlevel
  · intro t ht htest q hq p' width' hnext'
    obtain rfl := List.mem_singleton.1 ht
    obtain rfl : p = q := Option.some.inj (hstrength.symm.trans hq)
    have hpos := operator_pos hnext'
    rcases rightOperand_stops hs (current ts) p hcut with ⟨hk, t, ht, htype⟩ | hstops
    · -- a type test would have been seen
      have hany : cs.any (·.isNodeOf .type) = true :=
        List.any_eq_true.2 ⟨t, hcs ▸ List.mem_append_right _ ht, htype⟩
      have hword : (isOperator .isKw cs || isOperator .asKw cs) = true := by
        rw [hkind, hkind]
        rcases hk with hk | hk <;> simp [hk]
      simp [isTypeTest, hany, hword] at htest
    · have hlt := hstops p' width' hnext'
      by_cases hcoalesces : current ts = .questionQuestion
      · rw [hcoalesces] at hop hlt
        simp [rightLevel, hop.eq_one] at hlt
        omega
      · have hone := hop.one_lt hcoalesces
        simp [rightLevel, hcoalesces] at hlt
        exact ⟨by omega, hone⟩

/-- How a climb goes on: it stops before an operator that is too loose, or takes the operator. -/
theorem binary_cases (inner : Rule → Parser) (level : Nat) (ts : List Token) :
    (binary? inner level ts = none ∧ ∀ p width, operator? ts = some (p, width) → p < level) ∨
      ∃ p width, operator? ts = some (p, width) ∧ level ≤ p ∧
        binary? inner level ts = some (.binaryExpression,
          List.replicate width bump ++ [rightOperand inner (current ts) p]) := by
  rw [congrFun (binary_eq inner level) ts]
  cases hnext : operator? ts with
  | none => exact Or.inl ⟨rfl, nofun⟩
  | some found =>
      obtain ⟨p, width⟩ := found
      by_cases hlevel : level ≤ p
      · exact Or.inr ⟨p, width, rfl, hlevel, if_pos hlevel⟩
      · refine Or.inl ⟨if_neg hlevel, fun q width' heq => ?_⟩
        obtain ⟨rfl, -⟩ := Prod.mk.inj (Option.some.inj heq)
        exact Nat.lt_of_not_le hlevel

/-- What a climb ends with. -/
structure Climbed (inner : Rule → Parser) (level : Nat) (built : List Tree) (s : Step) : Prop where
  row : ∀ t ∈ s.built, t.isTrivia = true ∨ Binds level t
  stops : ∀ p width, operator? s.rest = some (p, width) → p < level
  bound : (∀ r, Builds Uncut Bound (inner r)) → EveryNodeAmong Bound built →
    EveryNodeAmong Bound s.built

/-- What a right operand builds is bound if what the rules build is. -/
theorem rightOperand_builds (hs : ∀ r, Builds Uncut Bound (inner r)) (k : Kind) (p : Nat) :
    Builds Uncut Bound (rightOperand inner k p) := by
  intro ts hcut
  unfold rightOperand either at hcut ⊢
  split at hcut
  · next h => rw [if_pos h]; exact hs _ ts hcut
  · next h =>
    rw [if_neg h]
    split at hcut
    · next h => rw [if_pos h]; exact hs _ ts hcut
    · next h => rw [if_neg h]; exact hs _ ts hcut

/-- There is no node to check among the tokens of an operator. -/
theorem IsOperator.everyNodeAmong {P : Kind → List Tree → Prop} {k : Kind} (h : IsOperator op k p) :
    EveryNodeAmong P op := by
  cases h with
  | word s h => exact ⟨trivial, trivial⟩
  | shift s s' => exact ⟨trivial, trivial, trivial⟩

/-- **All operators of a climb**, by induction on the turns that are left. -/
theorem wraps_climbed (hs : Operands inner) (n : Nat) (h : Climbing level built ts)
    (hcut : (wraps (binary? inner level) n built ts).cut = false) :
    Climbed inner level built (wraps (binary? inner level) n built ts) := by
  induction n generalizing built ts with
  | zero =>
      rcases binary_cases inner level ts with ⟨-, hstops⟩ | ⟨p, width, -, -, hpick⟩
      · exact ⟨h.row, hstops, fun _ => id⟩
      · simp [wraps, hpick] at hcut
  | succ n ih =>
      rcases binary_cases inner level ts with ⟨hpick, hstops⟩ | ⟨p, width, hnext, hlevel, hpick⟩
      · simp only [wraps, hpick, emit]
        exact ⟨h.row, hstops, fun _ => id⟩
      · obtain ⟨op, us, hop, hstep⟩ := operator_step hnext (rightOperand inner (current ts) p)
        simp only [wraps, hpick, hstep] at hcut ⊢
        obtain ⟨hrightCut, hrestCut⟩ := Bool.or_eq_false_iff.1 hcut
        obtain ⟨hnode, hclimb⟩ := h.step hs hnext hlevel hop hrightCut rfl
        simp only [List.append_assoc] at hnode hclimb hrestCut ⊢
        have hrest := ih hclimb hrestCut
        refine ⟨hrest.row, hrest.stops, fun hbuilds hbuilt => hrest.bound hbuilds ⟨⟨hnode, ?_⟩, trivial⟩⟩
        refine everyNodeAmong_append.2 ⟨hbuilt, everyNodeAmong_append.2 ⟨everyNodeAmong_leaves _ _,
          everyNodeAmong_append.2 ⟨hop.everyNodeAmong, ?_⟩⟩⟩
        exact rightOperand_builds hbuilds _ _ us hrightCut

/-- A climb starts with an operand without binary operators. -/
theorem climbing_of_unary (hs : Operands inner) (hcut : (inner .unary ts).cut = false) :
    Climbing level (inner .unary ts).built (inner .unary ts).rest where
  row := fun t ht => (hs.unary ts hcut t ht).imp_right fun htight => .of_tight htight level
  next := by
    intro t ht _ q hq
    rcases hs.unary ts hcut t ht with htrivia | htight
    · rw [binds_of_not_node (not_node_of_isTrivia htrivia)] at hq
      cases hq
    · simp only [isTight, Bool.and_eq_true, Bool.not_eq_true'] at htight
      rw [binds_eq_none htight.1.2] at hq
      cases hq

/-- A climb from a first operand ends as it should. -/
theorem wrapped_climbed (hs : Operands inner)
    (hcut : (wrapped (inner .unary) (binary? inner level) ts).cut = false) :
    Climbed inner level (inner .unary ts).built (wrapped (inner .unary) (binary? inner level) ts) := by
  obtain ⟨hunaryCut, hrestCut⟩ := Bool.or_eq_false_iff.1 hcut
  obtain ⟨hrow, hstops, hbound⟩ := wraps_climbed hs _ (climbing_of_unary hs hunaryCut) hrestCut
  exact ⟨hrow, hstops, hbound⟩

end Step

/-- The operands of the grammar at every depth. -/
theorem unfold_operands (n : Nat) : Operands (unfold n) := by
  induction n with
  | zero =>
      have hcuts : ∀ {r ts}, (unfold 0 r ts).cut ≠ false := nofun
      have hnone : ∀ Q r, Offers Q (unfold 0 r) := fun _ _ _ hcut => absurd hcut hcuts
      exact ⟨hnone _ _, fun _ _ hcut => absurd hcut hcuts, hnone _ _, fun _ => hnone _ _,
        fun _ _ hcut => absurd hcut hcuts⟩
  | succ n ih =>
      refine ⟨typePhrase_offers, fun ts h _ => typePhrase_typed h, unaryPhrase_offers ih,
        fun level => Offers.flushed fun ts hcut => (wrapped_climbed ih hcut).row, ?_⟩
      intro level ts hcut
      show ∀ p width, operator? (binaryPhrase (unfold n) level ts).rest = some (p, width) → p < level
      replace hcut : (binaryPhrase (unfold n) level ts).cut = false := hcut
      unfold binaryPhrase at hcut ⊢
      rw [all_pair] at hcut ⊢
      exact (wrapped_climbed ih (cut_andThen hcut).2).stops

/-- Being bound asks about binary expressions only, so the other nodes fit. -/
theorem bound_fitting : Fitting Uncut Bound := ⟨uncut_parts, fun _ _ _ => nofun⟩

/-- Binary expressions are bound at every level, if their operands are. -/
theorem binaryPhrase_builds {inner : Rule → Parser} (hs : Operands inner)
    (hbuilds : ∀ r, Builds Uncut Bound (inner r)) (level : Nat) :
    Builds Uncut Bound (binaryPhrase inner level) := by
  have hclimb : Builds Uncut Bound (wrapped (inner .unary) (binary? inner level)) := fun ts hcut =>
    (wrapped_climbed hs hcut).bound hbuilds (hbuilds .unary ts (Bool.or_eq_false_iff.1 hcut).1)
  unfold binaryPhrase
  rw [all_pair]
  exact Builds.seq uncut_parts flush_builds hclimb

/-- What the whole grammar asks of the relation: the rules, the binary expressions by climbing,
and member accesses, which are no binary expressions. -/
theorem bound_ground {inner : Rule → Parser} (hs : Operands inner)
    (hbuilds : ∀ r, Builds Uncut Bound (inner r)) :
    Ground (Alone (Builds Uncut Bound)) (Tops Uncut Bound) (fun _ _ => True) inner inner :=
  have hfree {k : Kind} (hk : k ≠ .binaryExpression) (p : Parser) : Tops Uncut Bound k p :=
    fun _ _ _ heq => absurd heq hk
  have hrules : Rules (Alone (Builds Uncut Bound)) (Tops Uncut Bound) inner inner :=
    ⟨hbuilds, fun _ hk => hfree fun heq => by rw [heq] at hk; cases hk⟩
  (builds_congruence bound_fitting).groundBut (fun _ hk => hfree fun heq => hk (by simp [heq])) hbuilds
    (binaryPhrase_builds hs hbuilds)
    (suffixPhrase_congr (builds_congruence bound_fitting) hrules (hfree nofun)
      (stands_trivial inner) (stands_trivial inner))
    (stands_trivial inner) (stands_trivial inner)

/-- Every binary expression of a file is nested as its operator asks. -/
theorem source_bound : Builds Uncut Bound source :=
  bound_fitting.ofSource (fun n => bound_ground (unfold_operands n)) fun _ => nofun

/-! ## Grouping -/

/-- An operator other than `>` binds as its table says. -/
theorem strength_of_isOperator {k : Kind} {cs : List Tree} (h : isOperator k cs = true)
    (hk : k ≠ .gt) : strength? cs = precedence? k := by
  unfold isOperator at h
  unfold strength?
  cases hfrom : fromOperator cs with
  | nil => simp [hfrom] at h
  | cons t more =>
      cases t with
      | node l ds => simp [hfrom, isTokenOf] at h
      | token l s =>
          obtain rfl : k = l := by simpa [hfrom, isTokenOf] using h
          split
          · next heq =>
            obtain ⟨hhead, -⟩ := List.cons.inj heq
            cases hhead
            exact absurd rfl hk
          · next heq =>
            obtain ⟨hhead, -⟩ := List.cons.inj heq
            cases hhead
            rfl
          · next hnot => exact absurd rfl (hnot _ _ _)

/-- A type test binds as tightly as `is`. -/
theorem binds_of_isTypeTest {t : Tree} (h : t.isTypeTest = true) : t.binds? = some 8 := by
  unfold isTypeTest at h
  split at h
  · next cs =>
    rcases Bool.or_eq_true_iff.1 (Bool.and_eq_true_iff.1 h).1 with h | h
    · exact strength_of_isOperator h nofun
    · exact strength_of_isOperator h nofun
  · cases h

/-- Nothing but a type test before a tighter operator keeps a nested row from being grouped. -/
theorem Nested.grouped_iff {p : Nat} {cs : List Tree} (h : Nested p cs)
    (hp : p ∈ strength? cs) :
    Grouped p cs ↔ ∀ t ∈ beforeOperator cs, t.isTypeTest = true → p ≤ 8 := by
  constructor
  · intro hgrouped t ht htest
    have hleft := hgrouped.left t ht 8 (binds_of_isTypeTest htest)
    split at hleft <;> omega
  · intro htests
    refine ⟨fun t ht q hq => ?_, h.right, h.plain⟩
    cases htest : t.isTypeTest with
    | false => exact h.left t ht htest q hq
    | true =>
        obtain rfl : 8 = q := Option.some.inj ((binds_of_isTypeTest htest).symm.trans hq)
        have hle := htests t ht htest
        split
        · next hcoalesces =>
          rw [strength_of_isOperator hcoalesces nofun] at hp
          obtain rfl : 1 = p := Option.some.inj hp
          decide
        · exact hle

end Parse

open Tree

/-- **Operators are grouped by precedence and associativity, except behind a type.**  Whatever the
text, every binary expression has an operator, and it is grouped unless that operator binds more
tightly than `is` and stands behind an `is` or `as` with a type. -/
theorem parse_grouped (text : String) :
    (parse text).1.EveryNode fun k cs => k = .binaryExpression → ∃ p ∈ strength? cs,
      (Grouped p cs ↔ ∀ t ∈ beforeOperator cs, t.isTypeTest = true → p ≤ 8) := by
  have hsource := Parse.source_bound (lex text).1 (source_uncut text)
  rw [source_eq] at hsource
  refine (everyNode_mono fun k cs hbound hk => ?_).1 _ hsource.1
  obtain ⟨p, hp, hnested⟩ := hbound hk
  exact ⟨p, hp, hnested.grouped_iff hp⟩

/-- **A type test can stand before a tighter operator.**  The `+` behind the type has the whole `is`
on its left. -/
theorem not_grouped : ¬ ∀ text : String, (parse text).1.EveryNode fun k cs =>
    k = .binaryExpression → ∃ p ∈ strength? cs, Grouped p cs := by
  intro h
  have hgrouped := h "class C \x7b int x = a is T + b; \x7d"
  revert hgrouped
  decide +kernel

end CodeMend

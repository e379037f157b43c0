import CodeMend.Proofs.Parser.Shape
import CodeMend.Proofs.Semantic.Operators
import CodeMend.Proofs.Syntax.Paths
import CodeMend.Proofs.Trivia.Spans
import CodeMend.Semantic.Model

/-!
# Constants are folded soundly and completely

The value of a node is given by rules: `Gives m V s v` says that one rule gives `s` the value `v`
if nodes have the values in `V`, and a node has a value if a derivation of some height gives it
(`HasValue`).

The evaluation uses up a declaration while it computes it, and tells declarations by their spans.
Spans identify declarations, because a declaration has a name of its own besides what stands in it
(`Named.eq_of_span_eq`).  A derivation of least height never comes back to the declaration it is about:
what it uses has a lower height.  So a declaration that is used up is never missed
(`declaredConstant_complete`), and only definitions that depend on themselves are cut.
-/

namespace CodeMend

namespace Model

open Constant

/-! ## Rules -/

/-- Is it a name or a member access? -/
def isName (s : Site) : Bool := s.kind == .identifierName || s.kind == .memberAccessExpression

/-- The rules for values: one of them gives `s` the value `v`, if nodes have the values in `V`. -/
inductive Gives (m : Model) (V : Site → Constant → Prop) : Site → Constant → Prop
  | literal {s t : Site} {v : Constant} : s.kind = .literalExpression → s.firstToken? = some t →
      ofLiteral? t.kind t.text = some v → Gives m V s v
  | parenthesized {s e : Site} {v : Constant} : s.kind = .parenthesizedExpression →
      s.expression? = some e → V e v → Gives m V s v
  | unary {s e : Site} {k : Kind} {a v : Constant} : s.kind = .prefixUnaryExpression →
      s.expression? = some e → s.firstKind? = some k → V e a → UnaryValue k a v → Gives m V s v
  | binary {s l r : Site} {k : Kind} {a b v : Constant} : s.kind = .binaryExpression →
      s.isRightShift = false → s.left? = some l → s.right? = some r → s.operator? = some k →
      V l a → V r b → BinaryValue k a b v → Gives m V s v
  | rightShift {s l r : Site} {a b v : Constant} : s.kind = .binaryExpression →
      s.isRightShift = true → s.left? = some l → s.right? = some r →
      V l a → V r b → ShiftValue a b v → Gives m V s v
  /-- A name has the value of the node that declares the constant it refers to. -/
  | name {s d : Site} {symbol : Symbol} {v : Constant} : isName s = true →
      m.symbol? s = some symbol → symbol.isConst = true → d ∈ m.root.subnodes →
      isConstantNode d = true → symbol.declaration = some d.span → V d v → Gives m V s v
  | declarator {s e : Site} {v : Constant} : s.kind = .variableDeclarator →
      isConstDeclarator s = true → s.value? = some e → V e v → Gives m V s v
  | member {s e : Site} {v : Constant} : s.kind = .enumMemberDeclaration → s.value? = some e →
      V e v → Gives m V s v
  | first {s : Site} : s.kind = .enumMemberDeclaration → s.value? = none →
      previousMember? s = none → Gives m V s (int 0)
  | next {s p : Site} {a n : Int64} : s.kind = .enumMemberDeclaration → s.value? = none →
      previousMember? s = some p → V p (int a) → n.toInt = a.toInt + 1 → Gives m V s (int n)

/-- A derivation of at most the given height gives the node the value. -/
def Derives (m : Model) : Nat → Site → Constant → Prop
  | 0 => fun _ _ => False
  | height + 1 => Gives m (Derives m height)

/-- A finite derivation gives the node the value. -/
def HasValue (m : Model) (s : Site) (v : Constant) : Prop := ∃ height, Derives m height s v

variable {m : Model} {s d : Site} {v w : Constant}

/-- With more values for the operands, the rules give more. -/
theorem Gives.mono {V W : Site → Constant → Prop} (hVW : ∀ s v, V s v → W s v)
    (h : Gives m V s v) : Gives m W s v := by
  cases h with
  | literal hkind hfirst hvalue => exact .literal hkind hfirst hvalue
  | parenthesized hkind he hv => exact .parenthesized hkind he (hVW _ _ hv)
  | unary hkind he hk ha hv => exact .unary hkind he hk (hVW _ _ ha) hv
  | binary hkind hshift hl hr hk ha hb hv =>
      exact .binary hkind hshift hl hr hk (hVW _ _ ha) (hVW _ _ hb) hv
  | rightShift hkind hshift hl hr ha hb hv =>
      exact .rightShift hkind hshift hl hr (hVW _ _ ha) (hVW _ _ hb) hv
  | name hname hsymbol hconst hd hnode hspan hv =>
      exact .name hname hsymbol hconst hd hnode hspan (hVW _ _ hv)
  | declarator hkind hconst he hv => exact .declarator hkind hconst he (hVW _ _ hv)
  | member hkind he hv => exact .member hkind he (hVW _ _ hv)
  | first hkind hvalue hprevious => exact .first hkind hvalue hprevious
  | next hkind hvalue hprevious ha hn => exact .next hkind hvalue hprevious (hVW _ _ ha) hn

/-- A derivation may be made one higher. -/
theorem Derives.succ {height : Nat} (h : Derives m height s v) : Derives m (height + 1) s v := by
  induction height generalizing s v with
  | zero => exact h.elim
  | succ height ih => exact Gives.mono (fun _ _ => ih) h

/-- A derivation may be made as high as one likes. -/
theorem Derives.mono {height more : Nat} (hle : height ≤ more) (h : Derives m height s v) :
    Derives m more s v := by
  induction hle with
  | refl => exact h
  | step _ ih => exact ih.succ

/-- Finitely many derivations have a common height. -/
theorem HasValue.of_gives (h : Gives m (HasValue m) s v) : HasValue m s v := by
  cases h with
  | literal hkind hfirst hvalue => exact ⟨1, .literal hkind hfirst hvalue⟩
  | parenthesized hkind he hv =>
      obtain ⟨height, hv⟩ := hv
      exact ⟨height + 1, .parenthesized hkind he hv⟩
  | unary hkind he hk ha hv =>
      obtain ⟨height, ha⟩ := ha
      exact ⟨height + 1, .unary hkind he hk ha hv⟩
  | binary hkind hshift hl hr hk ha hb hv =>
      obtain ⟨height, ha⟩ := ha
      obtain ⟨height', hb⟩ := hb
      exact ⟨max height height' + 1, .binary hkind hshift hl hr hk
        (ha.mono (Nat.le_max_left ..)) (hb.mono (Nat.le_max_right ..)) hv⟩
  | rightShift hkind hshift hl hr ha hb hv =>
      obtain ⟨height, ha⟩ := ha
      obtain ⟨height', hb⟩ := hb
      exact ⟨max height height' + 1, .rightShift hkind hshift hl hr
        (ha.mono (Nat.le_max_left ..)) (hb.mono (Nat.le_max_right ..)) hv⟩
  | name hname hsymbol hconst hd hnode hspan hv =>
      obtain ⟨height, hv⟩ := hv
      exact ⟨height + 1, .name hname hsymbol hconst hd hnode hspan hv⟩
  | declarator hkind hconst he hv =>
      obtain ⟨height, hv⟩ := hv
      exact ⟨height + 1, .declarator hkind hconst he hv⟩
  | member hkind he hv =>
      obtain ⟨height, hv⟩ := hv
      exact ⟨height + 1, .member hkind he hv⟩
  | first hkind hvalue hprevious => exact ⟨1, .first hkind hvalue hprevious⟩
  | next hkind hvalue hprevious ha hn =>
      obtain ⟨height, ha⟩ := ha
      exact ⟨height + 1, .next hkind hvalue hprevious ha hn⟩

/-! ## Expressions -/

/-- One level of an expression: its operands have the values that `f` gives them. -/
def foldStep (f resolve : Site → Option Constant) (s : Site) : Option Constant :=
  match s.kind with
  | .literalExpression => s.firstToken?.bind fun t => ofLiteral? t.kind t.text
  | .parenthesizedExpression => s.expression?.bind f
  | .prefixUnaryExpression => do
    let a ← f (← s.expression?)
    Constant.unary (← s.firstKind?) a
  | .binaryExpression => do
    let l ← s.left?
    let r ← s.right?
    let a ← f l
    let b ← f r
    if s.isRightShift then Constant.rightShift a b else Constant.binary (← s.operator?) a b
  | .identifierName | .memberAccessExpression => resolve s
  | _ => none

/-- The evaluation of an expression goes one level down and evaluates the operands. -/
theorem fold_eq (resolve : Site → Option Constant) (s : Site) :
    s.fold resolve = foldStep (Site.fold resolve) resolve s := by
  rw [Site.fold]
  generalize hk : s.kind = k
  by_cases hliteral : k = .literalExpression
  · subst hliteral
    simp only [foldStep, hk]
  by_cases hparenthesized : k = .parenthesizedExpression
  · subst hparenthesized
    simp only [foldStep, hk]
    split
    · next he => simp [he]
    · next he => simp [he]
  by_cases hunary : k = .prefixUnaryExpression
  · subst hunary
    simp only [foldStep, hk]
    split
    · next he => simp [he]
    · next he => simp [he]
  by_cases hbinary : k = .binaryExpression
  · subst hbinary
    simp only [foldStep, hk]
    split
    · next hl hr => simp [hl, hr]
    · next hmissing =>
      cases hl : s.left? with
      | none => rfl
      | some l =>
          cases hr : s.right? with
          | none => rfl
          | some r => exact absurd hr (hmissing l r hl)
  by_cases hidentifier : k = .identifierName
  · subst hidentifier
    simp only [foldStep, hk]
  by_cases haccess : k = .memberAccessExpression
  · subst haccess
    simp only [foldStep, hk]
  · simp only [foldStep, hk]

/-- What is not the node of a constant's declaration. -/
theorem isConstantNode_of_isExpression (h : s.kind.isExpression = true) :
    isConstantNode s = false := by
  by_contra hnode
  rw [Bool.not_eq_false, isConstantNode, Bool.or_eq_true, beq_iff_eq, beq_iff_eq] at hnode
  rcases hnode with hkind | hkind <;> rw [hkind] at h <;> exact absurd h (by decide)

/-- The expression below a node declares no constant. -/
theorem isConstantNode_of_expression? {e : Site} (h : s.expression? = some e) :
    isConstantNode e = false := by
  have hkind := List.find?_some h
  exact isConstantNode_of_isExpression (Bool.and_eq_true_iff.1 hkind).1

/-- Operands declare no constants. -/
theorem isConstantNode_of_mem_expressions {e : Site} (h : e ∈ s.expressions) :
    isConstantNode e = false := isConstantNode_of_isExpression (List.mem_filter.1 h).2

/-- One level of the evaluation follows a rule, from values of smaller sites, or it is the value
of a name. -/
theorem foldStep_sound {f resolve : Site → Option Constant} (h : foldStep f resolve s = some v) :
    (isName s = true ∧ resolve s = some v) ∨
      Gives m (fun e w => f e = some w ∧ sizeOf e.tree < sizeOf s.tree) s v := by
  unfold foldStep at h
  split at h
  · next hkind =>
    obtain ⟨t, ht, hvalue⟩ := Option.bind_eq_some_iff.1 h
    exact Or.inr (.literal hkind ht hvalue)
  · next hkind =>
    obtain ⟨e, he, hv⟩ := Option.bind_eq_some_iff.1 h
    exact Or.inr (.parenthesized hkind he ⟨hv, Site.sizeOf_tree_lt_of_expression? he⟩)
  · next hkind =>
    obtain ⟨e, he, h⟩ := Option.bind_eq_some_iff.1 h
    obtain ⟨a, ha, h⟩ := Option.bind_eq_some_iff.1 h
    obtain ⟨k, hk, hv⟩ := Option.bind_eq_some_iff.1 h
    exact Or.inr (.unary hkind he hk ⟨ha, Site.sizeOf_tree_lt_of_expression? he⟩ (unary_iff.1 hv))
  · next hkind =>
    obtain ⟨l, hl, h⟩ := Option.bind_eq_some_iff.1 h
    obtain ⟨r, hr, h⟩ := Option.bind_eq_some_iff.1 h
    obtain ⟨a, ha, h⟩ := Option.bind_eq_some_iff.1 h
    obtain ⟨b, hb, h⟩ := Option.bind_eq_some_iff.1 h
    have hleft := Site.sizeOf_tree_lt_of_left? hl
    have hright := Site.sizeOf_tree_lt_of_right? hr
    split at h
    · next hshift =>
      exact Or.inr (.rightShift hkind hshift hl hr ⟨ha, hleft⟩ ⟨hb, hright⟩ (rightShift_iff.1 h))
    · next hshift =>
      obtain ⟨k, hk, hv⟩ := Option.bind_eq_some_iff.1 h
      exact Or.inr (.binary hkind (Bool.eq_false_iff.2 hshift) hl hr hk ⟨ha, hleft⟩ ⟨hb, hright⟩
        (binary_iff.1 hv))
  · next hkind => exact Or.inl ⟨by simp [isName, hkind], h⟩
  · next hkind => exact Or.inl ⟨by simp [isName, hkind], h⟩
  · exact absurd h (by simp)

/-- What a rule gives for an expression is found one level down, if the values of its operands
are. -/
theorem foldStep_complete {V : Site → Constant → Prop} {f resolve : Site → Option Constant}
    (h : Gives m V s v) (hnode : isConstantNode s = false)
    (hname : isName s = true → resolve s = some v)
    (hf : ∀ e w, V e w → isConstantNode e = false → f e = some w) :
    foldStep f resolve s = some v := by
  cases h with
  | literal hkind hfirst hvalue =>
      simp only [foldStep, hkind]
      exact Option.bind_eq_some_iff.2 ⟨_, hfirst, hvalue⟩
  | parenthesized hkind he hv =>
      simp only [foldStep, hkind]
      exact Option.bind_eq_some_iff.2 ⟨_, he, hf _ _ hv (isConstantNode_of_expression? he)⟩
  | unary hkind he hk ha hv =>
      have hfa := hf _ _ ha (isConstantNode_of_expression? he)
      simp [foldStep, hkind, he, hfa, hk, unary_iff.2 hv]
  | binary hkind hshift hl hr hk ha hb hv =>
      have hfa := hf _ _ ha (isConstantNode_of_mem_expressions (List.mem_of_head? hl))
      have hfb := hf _ _ hb (isConstantNode_of_mem_expressions (List.mem_of_getElem? hr))
      simp [foldStep, hkind, hl, hr, hfa, hfb, hshift, hk, binary_iff.2 hv]
  | rightShift hkind hshift hl hr ha hb hv =>
      have hfa := hf _ _ ha (isConstantNode_of_mem_expressions (List.mem_of_head? hl))
      have hfb := hf _ _ hb (isConstantNode_of_mem_expressions (List.mem_of_getElem? hr))
      simp [foldStep, hkind, hl, hr, hfa, hfb, hshift, rightShift_iff.2 hv]
  | name hisName _ _ _ _ _ _ =>
      have hresolve := hname hisName
      rcases Bool.or_eq_true_iff.1 hisName with hkind | hkind
      · simpa only [foldStep, beq_iff_eq.1 hkind] using hresolve
      · simpa only [foldStep, beq_iff_eq.1 hkind] using hresolve
  | declarator hkind _ _ _ => simp [isConstantNode, hkind] at hnode
  | member hkind _ _ => simp [isConstantNode, hkind] at hnode
  | first hkind _ _ => simp [isConstantNode, hkind] at hnode
  | next hkind _ _ _ _ => simp [isConstantNode, hkind] at hnode

/-- An expression has a value by the rules if the names in it do. -/
theorem fold_sound {resolve : Site → Option Constant}
    (hresolve : ∀ e w, isName e = true → resolve e = some w → HasValue m e w)
    (h : s.fold resolve = some v) : HasValue m s v := by
  induction hn : sizeOf s.tree using Nat.strongRecOn generalizing s v with
  | ind n ih =>
      subst hn
      rw [fold_eq] at h
      rcases foldStep_sound (m := m) h with ⟨hname, hvalue⟩ | hgives
      · exact hresolve s v hname hvalue
      · exact .of_gives (hgives.mono fun e w he => ih _ he.2 he.1 rfl)

/-- An expression with a derivation is evaluated if the names in it are. -/
theorem fold_complete {resolve : Site → Option Constant} {height : Nat}
    (hresolve : ∀ e w, isName e = true → Derives m height e w → resolve e = some w)
    (hnode : isConstantNode s = false) (h : Derives m height s v) : s.fold resolve = some v := by
  induction height generalizing s v with
  | zero => exact h.elim
  | succ height ih =>
      rw [fold_eq]
      refine foldStep_complete h hnode (fun hname => hresolve s v hname h) fun e w he heNode => ?_
      exact ih (fun e w hname he => hresolve e w hname he.succ) heNode he

/-! ## One value -/

/-- Spans identify the declarations of constants. -/
def SpansIdentify (m : Model) : Prop :=
  ∀ d ∈ m.root.subnodes, ∀ e ∈ m.root.subnodes, isConstantNode d = true → isConstantNode e = true →
    d.span = e.span → d = e

/-- The rules give no node two values: at most one rule applies to it. -/
theorem Gives.unique {V : Site → Constant → Prop} (hm : SpansIdentify m)
    (hV : ∀ s v w, V s v → V s w → v = w) (hv : Gives m V s v) (hw : Gives m V s w) : v = w := by
  cases hv with
  | literal hkind hfirst hvalue =>
      cases hw <;> simp_all [isName]
  | parenthesized hkind he hv =>
      cases hw <;> simp_all [isName]
      next hw => exact hV _ _ _ hv hw
  | unary hkind he hk ha hv =>
      cases hw <;> simp_all [isName]
      next ha' hw =>
        obtain rfl := hV _ _ _ ha ha'
        exact Option.some.inj ((unary_iff.2 hv).symm.trans (unary_iff.2 hw))
  | binary hkind hshift hl hr hk ha hb hv =>
      cases hw <;> simp_all [isName]
      next ha' hb' hw =>
        obtain rfl := hV _ _ _ ha ha'
        obtain rfl := hV _ _ _ hb hb'
        exact Option.some.inj ((binary_iff.2 hv).symm.trans (binary_iff.2 hw))
  | rightShift hkind hshift hl hr ha hb hv =>
      cases hw <;> simp_all [isName]
      next ha' hb' hw =>
        obtain rfl := hV _ _ _ ha ha'
        obtain rfl := hV _ _ _ hb hb'
        exact Option.some.inj ((rightShift_iff.2 hv).symm.trans (rightShift_iff.2 hw))
  | name hname hsymbol hconst hd hnode hspan hv =>
      cases hw with
      | name _ hsymbol' _ hd' hnode' hspan' hw =>
          obtain rfl := Option.some.inj (hsymbol.symm.trans hsymbol')
          obtain rfl := hm _ hd _ hd' hnode hnode' (Option.some.inj (hspan.symm.trans hspan'))
          exact hV _ _ _ hv hw
      | _ => simp_all [isName]
  | declarator hkind hconst he hv =>
      cases hw <;> simp_all [isName]
      next hw => exact hV _ _ _ hv hw
  | member hkind he hv =>
      cases hw <;> simp_all [isName]
      next hw => exact hV _ _ _ hv hw
  | first hkind hvalue hprevious =>
      cases hw <;> simp_all [isName]
  | next hkind hvalue hprevious ha hn =>
      cases hw <;> simp_all [isName]
      next ha' hn' =>
        obtain rfl := int.inj (hV _ _ _ ha ha')
        exact Int64.toInt_inj.1 (hn.trans hn'.symm)

/-- Two derivations give one value, by induction on the height of the first. -/
theorem Derives.unique (hm : SpansIdentify m) {height height' : Nat} (hv : Derives m height s v)
    (hw : Derives m height' s w) : v = w := by
  have hsame : ∀ height s v w, Derives m height s v → Derives m height s w → v = w := by
    intro height
    induction height with
    | zero => exact fun _ _ _ hv => hv.elim
    | succ height ih => exact fun _ _ _ hv hw => Gives.unique hm ih hv hw
  exact hsame (max height height') s v w (hv.mono (Nat.le_max_left ..))
    (hw.mono (Nat.le_max_right ..))

/-! ## Declarations -/

/-- The value of a name, with the declarations in `rest` still to be used. -/
def resolveIn (m : Model) (rest : List Span) (name : Site) : Option Constant := do
  let symbol ← m.symbol? name
  if symbol.isConst then m.declaredConstant? rest (← m.declarationOf? symbol) else none

/-- The value of a declaration, with the declarations in `rest` still to be used. -/
def declaredStep (m : Model) (rest : List Span) (s : Site) : Option Constant :=
  if s.kind == .enumMemberDeclaration then
    match s.value? with
    | some e => e.fold (resolveIn m rest)
    | none =>
      match previousMember? s with
      | none => some (int 0)
      | some p => do
        let before ← (← m.declaredConstant? rest p).asInt?
        (checked (before.toInt + 1)).map int
  else if isConstDeclarator s then s.value?.bind (Site.fold (resolveIn m rest))
  else none

/-- A declaration that is still to be used is evaluated with the others; one that is used
already has no value. -/
theorem declaredConstant_eq (m : Model) (pending : List Span) (s : Site) :
    m.declaredConstant? pending s =
      if s.span ∈ pending then declaredStep m (pending.filter (· != s.span)) s else none := by
  rw [declaredConstant?]
  rfl

/-- A name has the value of the constant that it refers to. -/
theorem resolveIn_iff {rest : List Span} : resolveIn m rest s = some v ↔
    ∃ symbol d, m.symbol? s = some symbol ∧ symbol.isConst = true ∧
      m.declarationOf? symbol = some d ∧ m.declaredConstant? rest d = some v := by
  constructor
  · intro h
    obtain ⟨symbol, hsymbol, h⟩ := Option.bind_eq_some_iff.1 h
    split at h
    · next hconst =>
      obtain ⟨d, hd, hv⟩ := Option.bind_eq_some_iff.1 h
      exact ⟨symbol, d, hsymbol, hconst, hd, hv⟩
    · exact absurd h (by simp)
  · rintro ⟨symbol, d, hsymbol, hconst, hd, hv⟩
    refine Option.bind_eq_some_iff.2 ⟨symbol, hsymbol, ?_⟩
    rw [if_pos hconst]
    exact Option.bind_eq_some_iff.2 ⟨d, hd, hv⟩

/-- To begin with, all declarations are still to be used. -/
theorem namedConstant_eq (m : Model) : m.namedConstant? = resolveIn m m.constantSpans := by
  funext name
  unfold namedConstant? resolveIn
  cases m.symbol? name with
  | none => rfl
  | some symbol =>
      show (if symbol.isConst = true then some () else none : Option Unit).bind _ = _
      cases hconst : symbol.isConst <;> simp [hconst]

/-- What the places of the declarations in a document promise to the evaluation. -/
structure WellPlaced (m : Model) : Prop where
  identify : SpansIdentify m
  /-- The node that declares a constant is found by its span, and nothing else is. -/
  found : ∀ symbol d, m.declarationOf? symbol = some d ↔
    d ∈ m.root.subnodes ∧ isConstantNode d = true ∧ symbol.declaration = some d.span
  previous : ∀ s ∈ m.root.subnodes, ∀ p, previousMember? s = some p → p ∈ m.root.subnodes

/-- The member before another one declares a constant. -/
theorem isConstantNode_of_previousMember? {p : Site} (h : previousMember? s = some p) :
    isConstantNode p = true := by
  have hkind := List.find?_some h
  simp [isConstantNode, beq_iff_eq.1 (Bool.and_eq_true_iff.1 hkind).2]

/-- What declares a constant is no name. -/
theorem isName_of_isConstantNode (h : isConstantNode s = true) : isName s = false := by
  rcases Bool.or_eq_true_iff.1 h with hkind | hkind <;> simp [isName, beq_iff_eq.1 hkind]

/-- The value of a declaration declares nothing itself. -/
theorem isConstantNode_of_value? {e : Site} (h : s.value? = some e) : isConstantNode e = false := by
  unfold Site.value? at h
  split at h
  · exact isConstantNode_of_expression? h
  · obtain ⟨c, -, he⟩ := Option.bind_eq_some_iff.1 h
    exact isConstantNode_of_expression? he

/-- A name has a derived value if what it refers to has. -/
theorem resolveIn_sound (hm : WellPlaced m) {rest : List Span}
    (hrest : ∀ d w, isConstantNode d = true → m.declaredConstant? rest d = some w → HasValue m d w)
    (hname : isName s = true) (h : resolveIn m rest s = some v) : HasValue m s v := by
  obtain ⟨symbol, d, hsymbol, hconst, hd, hv⟩ := resolveIn_iff.1 h
  obtain ⟨hmem, hnode, hspan⟩ := (hm.found symbol d).1 hd
  exact .of_gives (.name hname hsymbol hconst hmem hnode hspan (hrest d v hnode hv))

/-- **A value that is computed is derived.** -/
theorem declaredConstant_sound (hm : WellPlaced m) {pending : List Span}
    (hnode : isConstantNode s = true) (h : m.declaredConstant? pending s = some v) :
    HasValue m s v := by
  induction hn : pending.length using Nat.strongRecOn generalizing pending s v with
  | ind n ih =>
      subst hn
      rw [declaredConstant_eq] at h
      split at h
      · next hpending =>
        have hshorter : (pending.filter (· != s.span)).length < pending.length :=
          List.length_filter_lt_length_iff_exists.2 ⟨s.span, hpending, by simp⟩
        have hrest : ∀ d w, isConstantNode d = true →
            m.declaredConstant? (pending.filter (· != s.span)) d = some w → HasValue m d w :=
          fun d w hd hw => ih _ hshorter hd hw rfl
        have hfold : ∀ e w, e.fold (resolveIn m (pending.filter (· != s.span))) = some w →
            HasValue m e w := fun e w => fold_sound fun e w => resolveIn_sound hm hrest
        unfold declaredStep at h
        split at h
        · next hkind =>
          have hkind := beq_iff_eq.1 hkind
          split at h
          · next e he => exact .of_gives (.member hkind he (hfold e v h))
          · next hvalue =>
            split at h
            · next hprevious =>
              obtain rfl := Option.some.inj h
              exact .of_gives (.first hkind hvalue hprevious)
            · next p hprevious =>
              obtain ⟨c, hc, h⟩ := Option.bind_eq_some_iff.1 h
              obtain ⟨before, hbefore, h⟩ := Option.bind_eq_some_iff.1 h
              obtain ⟨n, hn, rfl⟩ := map_checked_iff.1 h
              cases c <;> simp only [asInt?, reduceCtorEq, Option.some.injEq] at hbefore
              subst hbefore
              have hp := hrest p _ (isConstantNode_of_previousMember? hprevious) hc
              exact .of_gives (.next hkind hvalue hprevious hp hn)
        · next hkind =>
          split at h
          · next hconst =>
            obtain ⟨e, he, hv⟩ := Option.bind_eq_some_iff.1 h
            have hdeclarator : s.kind = .variableDeclarator :=
              beq_iff_eq.1 ((Bool.or_eq_true_iff.1 hnode).resolve_left hkind)
            exact .of_gives (.declarator hdeclarator hconst he (hfold e v hv))
          · exact absurd h (by simp)
      · exact absurd h (by simp)

/-- A name with a derivation is evaluated if what it refers to is. -/
theorem resolveIn_complete (hm : WellPlaced m) {rest : List Span} {height : Nat}
    (hrest : ∀ d ∈ m.root.subnodes, isConstantNode d = true → ∀ w, Derives m height d w →
      m.declaredConstant? rest d = some w)
    (hname : isName s = true) (h : Derives m height s v) : resolveIn m rest s = some v := by
  cases height with
  | zero => exact h.elim
  | succ height =>
      cases h with
      | name _ hsymbol hconst hd hnode hspan hv =>
          exact resolveIn_iff.2 ⟨_, _, hsymbol, hconst, (hm.found _ _).2 ⟨hd, hnode, hspan⟩,
            hrest _ hd hnode _ (Derives.succ hv)⟩
      | _ => simp_all [isName]

/-- A declaration is evaluated from the values of what it uses. -/
theorem declaredStep_complete (hm : WellPlaced m) {rest : List Span} {height : Nat}
    (hrest : ∀ d ∈ m.root.subnodes, isConstantNode d = true → ∀ w, Derives m height d w →
      m.declaredConstant? rest d = some w)
    (hs : s ∈ m.root.subnodes) (hnode : isConstantNode s = true)
    (h : Gives m (Derives m height) s v) : declaredStep m rest s = some v := by
  have hfold : ∀ e w, isConstantNode e = false → Derives m height e w →
      e.fold (resolveIn m rest) = some w := fun e w =>
    fold_complete fun e w => resolveIn_complete hm hrest
  cases h with
  | declarator hkind hconst he hv =>
      have hvalue := hfold _ _ (isConstantNode_of_value? he) hv
      simp [declaredStep, hkind, hconst, he, hvalue]
  | member hkind he hv =>
      have hvalue := hfold _ _ (isConstantNode_of_value? he) hv
      simp [declaredStep, hkind, he, hvalue]
  | first hkind hvalue hprevious => simp [declaredStep, hkind, hvalue, hprevious]
  | next hkind hvalue hprevious ha hn =>
      have hp := hrest _ (hm.previous s hs _ hprevious)
        (isConstantNode_of_previousMember? hprevious) _ ha
      simp [declaredStep, hkind, hvalue, hprevious, hp, asInt?, checked_iff.2 hn]
  | name hname _ _ _ _ _ _ => exact absurd hname (by simp [isName_of_isConstantNode hnode])
  | _ => simp_all [isConstantNode]

/-- **A value that is derived is computed**, if the declarations with derivations of that height are
still to be used. -/
theorem declaredConstant_complete (hm : WellPlaced m) {height : Nat} {pending : List Span}
    (hpending : ∀ e ∈ m.root.subnodes, isConstantNode e = true → ∀ w, Derives m height e w →
      e.span ∈ pending)
    (hd : d ∈ m.root.subnodes) (hnode : isConstantNode d = true) (h : Derives m height d v) :
    m.declaredConstant? pending d = some v := by
  induction height using Nat.strongRecOn generalizing pending d v with
  | ind height ih =>
      by_cases hlower : ∃ lower, lower < height ∧ Derives m lower d v
      · obtain ⟨lower, hlt, hlow⟩ := hlower
        refine ih lower hlt (fun e he heNode w hw => ?_) hd hnode hlow
        exact hpending e he heNode w (hw.mono (Nat.le_of_lt hlt))
      · -- the height is least, so what is used has lower derivations and is another declaration
        cases height with
        | zero => exact h.elim
        | succ lower =>
            rw [declaredConstant_eq, if_pos (hpending d hd hnode v h)]
            refine declaredStep_complete hm (fun e he heNode w hvalue => ?_) hd hnode h
            refine ih lower (Nat.lt_succ_self _) (fun e he heNode w hvalue => ?_) he heNode hvalue
            refine List.mem_filter.2 ⟨hpending e he heNode w hvalue.succ, ?_⟩
            rw [bne_iff_ne]
            intro hspan
            obtain rfl := hm.identify e he d hd heNode hnode hspan
            obtain rfl := hvalue.unique hm.identify h
            exact hlower ⟨lower, Nat.lt_succ_self _, hvalue⟩

/-- The evaluation and the rules agree on every node, if declarations are well placed. -/
theorem constant_iff (hm : WellPlaced m) (hs : s ∈ m.root.subnodes) :
    m.constant? s = some v ↔ HasValue m s v := by
  have hpending : ∀ e ∈ m.root.subnodes, isConstantNode e = true → e.span ∈ m.constantSpans :=
    fun e he hnode => List.mem_map_of_mem (List.mem_filter.2 ⟨he, hnode⟩)
  have hcomplete : ∀ height, ∀ d ∈ m.root.subnodes, isConstantNode d = true → ∀ w,
      Derives m height d w → m.declaredConstant? m.constantSpans d = some w :=
    fun height d hd hnode w =>
      declaredConstant_complete hm (fun e he heNode _ _ => hpending e he heNode) hd hnode
  unfold constant?
  split
  · next hnode =>
    constructor
    · exact declaredConstant_sound hm hnode
    · rintro ⟨height, h⟩
      exact hcomplete height s hs hnode v h
  · next hnode =>
    rw [namedConstant_eq]
    constructor
    · exact fold_sound fun e w =>
        resolveIn_sound hm fun d w hnode => declaredConstant_sound hm hnode
    · rintro ⟨height, h⟩
      exact fold_complete (fun e w => resolveIn_complete hm (hcomplete height))
        (Bool.eq_false_iff.2 hnode) h

end Model

/-! ## Places of declarations -/

open Tree Site

/-- If every declaration of a constant has a token of its own, the declarations are well placed. -/
theorem Model.wellPlaced_of_named {d : Document} (catalog : Catalog)
    (hnamed : ∀ s ∈ d.root.subnodes, isConstantNode s = true → s.Named) :
    WellPlaced (.ofDocument d catalog) := by
  have hidentify : SpansIdentify (.ofDocument d catalog) := fun s hs r hr hsNode hrNode =>
    Named.eq_of_span_eq (List.mem_filter.1 hs).1 (List.mem_filter.1 hr).1 (hnamed s hs hsNode)
      (hnamed r hr hrNode)
  have hfits : ∀ {span : Span} {s : Site},
      (s.isNode && s.span == span && isConstantNode s) = true ↔
        s.isNode = true ∧ s.span = span ∧ isConstantNode s = true := by
    intro span s
    rw [Bool.and_eq_true, Bool.and_eq_true, beq_iff_eq, and_assoc]
  have hsound : ∀ symbol s, declarationOf? (.ofDocument d catalog) symbol = some s →
      s ∈ d.root.subnodes ∧ isConstantNode s = true ∧ symbol.declaration = some s.span := by
    intro symbol s h
    obtain ⟨span, hspan, hfind⟩ := Option.bind_eq_some_iff.1 h
    have hfit := List.find?_some hfind
    obtain ⟨hisNode, rfl, hnode⟩ := hfits.1 hfit
    have hmem := ancestors_mem (covering_mem _ _ _) (List.mem_of_find?_eq_some hfind)
    exact ⟨List.mem_filter.2 ⟨hmem, hisNode⟩, hnode, hspan⟩
  refine ⟨hidentify, fun symbol s => ⟨hsound symbol s, ?_⟩, fun s hs p hp => ?_⟩
  · rintro ⟨hs, hnode, hspan⟩
    obtain ⟨hmem, hisNode⟩ := List.mem_filter.1 hs
    have habove := mem_ancestors_covering hmem (hnamed s hs hnode).width_pos
    cases hfound : declarationOf? (.ofDocument d catalog) symbol with
    | some e =>
        obtain ⟨he, heNode, heSpan⟩ := hsound symbol e hfound
        have hsame : e.span = s.span := Option.some.inj (heSpan.symm.trans hspan)
        rw [hidentify e he s hs heNode hnode hsame]
    | none =>
        simp only [declarationOf?, hspan] at hfound
        exact absurd (hfits.2 ⟨hisNode, rfl, hnode⟩) (List.find?_eq_none.1 hfound s habove)
  · obtain ⟨hmem, -⟩ := List.mem_filter.1 hs
    have hfit := List.find?_some hp
    exact List.mem_filter.2 ⟨leftSiblings_mem hmem (List.mem_of_find?_eq_some hp),
      (Bool.and_eq_true_iff.1 hfit).1⟩

variable {version : Nat} {text : String}

/-- The node of a constant's declaration has a name right below it, which has text. -/
theorem Document.named_constantNode (hclean : (Document.ofText version text).errors = [])
    {d : Site} (hd : d ∈ (Document.ofText version text).root.subnodes)
    (hnode : Model.isConstantNode d = true) : d.Named := by
  obtain ⟨hmem, hisNode⟩ := List.mem_filter.1 hd
  have hshaped : d.tree.EveryNode Parse.Shaped :=
    everyNode_of_mem.1 _ _ _ _ (parse_shaped hclean) d hmem
  have htokens := tokens_subset_of_mem hmem
  refine ⟨hisNode, ?_⟩
  obtain ⟨tree, start, above, origin⟩ := d
  cases tree with
  | token k spelling => cases hisNode
  | node k cs =>
      obtain ⟨spelling, hname⟩ : ∃ spelling, .token .ident spelling ∈ cs := by
        rcases Bool.or_eq_true_iff.1 hnode with hkind | hkind
        · obtain rfl : k = .enumMemberDeclaration := beq_iff_eq.1 hkind
          exact hshaped.1
        · obtain rfl : k = .variableDeclarator := beq_iff_eq.1 hkind
          exact hshaped.1
      refine ⟨_, hname, rfl, ?_⟩
      have hsolid := parse_tokens_solid (htokens (mem_tokensAll hname))
      have hne : spelling ≠ "" := hsolid.resolve_right fun h => nomatch h
      exact Nat.pos_of_ne_zero fun hzero => hne (String.utf8ByteSize_eq_zero_iff.1 hzero)

/-- In a document without errors the declarations of constants are well placed. -/
theorem Document.wellPlaced (hclean : (Document.ofText version text).errors = [])
    (catalog : Catalog) : Model.WellPlaced (.ofDocument (.ofText version text) catalog) :=
  Model.wellPlaced_of_named catalog fun _ => Document.named_constantNode hclean

/-- **Constants are folded soundly and completely.**  Whatever the text, if it parses without
errors, the model gives a node a value if and only if a finite derivation by the rules does. -/
theorem constant_folding (version : Nat) (text : String) (catalog : Catalog) :
    let document := Document.ofText version text
    let model := Model.ofDocument document catalog
    document.errors = [] → ∀ n ∈ document.root.subnodes, ∀ v,
      model.constant? n = some v ↔ model.HasValue n v := by
  intro document model hclean n hn v
  exact Model.constant_iff (Document.wellPlaced hclean catalog) hn

/-- The second member of an enumeration that gives no values is one more than the first. -/
theorem constant_folding_enum :
    let document := Document.ofText 1 "enum E \x7b A, B \x7d"
    ∃ n ∈ document.root.subnodes, n.identText? = some "B" ∧
      (Model.ofDocument document .standard).constant? n = some (.int 1) := by
  intro document
  obtain ⟨n, hn, hname, hkind, hvalue, hfirst⟩ : ∃ n ∈ document.root.subnodes,
      n.identText? = some "B" ∧ n.kind = .enumMemberDeclaration ∧ n.value?.isNone = true ∧
        (Model.previousMember? n).any (fun p => p.kind == .enumMemberDeclaration &&
          p.value?.isNone && (Model.previousMember? p).isNone) = true := by
    decide +kernel
  have hclean : document.errors = [] := by decide +kernel
  refine ⟨n, hn, hname, (constant_folding 1 _ .standard hclean n hn _).2 ⟨2, ?_⟩⟩
  cases hprevious : Model.previousMember? n with
  | none => simp [hprevious] at hfirst
  | some p =>
      rw [hprevious, Option.any_some, Bool.and_eq_true, Bool.and_eq_true] at hfirst
      obtain ⟨⟨hpKind, hpValue⟩, hpFirst⟩ := hfirst
      exact .next hkind (Option.isNone_iff_eq_none.1 hvalue) hprevious
        (.first (beq_iff_eq.1 hpKind) (Option.isNone_iff_eq_none.1 hpValue)
          (Option.isNone_iff_eq_none.1 hpFirst)) (by decide)

end CodeMend

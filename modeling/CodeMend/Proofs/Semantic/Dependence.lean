import Mathlib.Logic.Relation
import CodeMend.Proofs.Semantic.Folding

/-!
# What a value depends on

The rules for values look up the values of other nodes.  `Uses m s e` says that the rule for `s` looks
up the value of `e`, and `DependsOn` is the closure of it.  What a node with a value uses has a value
by a lower derivation, so a node that depends on itself has none (`not_hasValue_of_cycle`).
-/

namespace CodeMend.Model

open Relation

variable {m : Model} {s e : Site} {v : Constant}

/-- The rule for the first node looks up the value of the second one. -/
inductive Uses (m : Model) : Site → Site → Prop
  | parenthesized {s e : Site} : s.kind = .parenthesizedExpression → s.expression? = some e →
      Uses m s e
  | unary {s e : Site} : s.kind = .prefixUnaryExpression → s.expression? = some e → Uses m s e
  | left {s l : Site} : s.kind = .binaryExpression → s.left? = some l → Uses m s l
  | right {s r : Site} : s.kind = .binaryExpression → s.right? = some r → Uses m s r
  | name {s d : Site} {symbol : Symbol} : isName s = true → m.symbol? s = some symbol →
      symbol.isConst = true → d ∈ m.root.subnodes → isConstantNode d = true →
      symbol.declaration = some d.span → Uses m s d
  | declarator {s e : Site} : s.kind = .variableDeclarator → isConstDeclarator s = true →
      s.value? = some e → Uses m s e
  | member {s e : Site} : s.kind = .enumMemberDeclaration → s.value? = some e → Uses m s e
  | previous {s p : Site} : s.kind = .enumMemberDeclaration → s.value? = none →
      previousMember? s = some p → Uses m s p

/-- The value of the first node is computed from that of the second one, or it is that node. -/
def DependsOn (m : Model) : Site → Site → Prop := ReflTransGen (Uses m)

/-- What a rule looks up has a value. -/
theorem Gives.uses {V : Site → Constant → Prop} (hm : SpansIdentify m) (h : Gives m V s v)
    (he : Uses m s e) : ∃ w, V e w := by
  cases he with
  | parenthesized hkind he =>
      cases h <;> simp_all [isName]
      exact ⟨_, ‹_›⟩
  | unary hkind he =>
      cases h <;> simp_all [isName]
      exact ⟨_, ‹_›⟩
  | left hkind he =>
      cases h <;> simp_all [isName]
      all_goals exact ⟨_, ‹_›⟩
  | right hkind he =>
      cases h <;> simp_all [isName]
      all_goals exact ⟨_, ‹_›⟩
  | name hname hsymbol hconst hd hnode hspan =>
      cases h with
      | name hname' hsymbol' hconst' hd' hnode' hspan' hv =>
          obtain rfl := Option.some.inj (hsymbol.symm.trans hsymbol')
          have hsame := Option.some.inj (hspan.symm.trans hspan')
          rw [hm _ hd _ hd' hnode hnode' hsame]
          exact ⟨_, hv⟩
      | _ => simp_all [isName]
  | declarator hkind hconst he =>
      cases h <;> simp_all [isName]
      exact ⟨_, ‹_›⟩
  | member hkind he =>
      cases h <;> simp_all [isName]
      exact ⟨_, ‹_›⟩
  | previous hkind hvalue hprevious =>
      cases h <;> simp_all [isName]
      exact ⟨_, ‹_›⟩

/-- What a node with a value depends on, without being it, has a value by a lower derivation. -/
theorem Derives.of_dependsOn (hm : SpansIdentify m) {height : Nat} (h : Derives m height s v)
    (he : TransGen (Uses m) s e) : ∃ lower < height, ∃ w, Derives m lower e w := by
  induction he with
  | single he =>
      cases height with
      | zero => exact h.elim
      | succ height => exact ⟨height, Nat.lt_succ_self _, Gives.uses hm h he⟩
  | tail _ he ih =>
      obtain ⟨lower, hlower, w, hw⟩ := ih
      cases lower with
      | zero => exact hw.elim
      | succ lower =>
          exact ⟨lower, Nat.lt_trans (Nat.lt_succ_self _) hlower, Gives.uses hm hw he⟩

/-- **A node that depends on itself has no value.** -/
theorem not_hasValue_of_cycle (hm : SpansIdentify m) (hcycle : TransGen (Uses m) s s) :
    ¬ HasValue m s v := by
  rintro ⟨height, h⟩
  induction height using Nat.strongRecOn generalizing v with
  | ind height ih =>
      obtain ⟨lower, hlower, w, hw⟩ := h.of_dependsOn hm hcycle
      exact ih lower hlower hw

end CodeMend.Model

import CodeMend.Proofs.Syntax.Nodes

/-!
# Trees without trivia

`Tree.bare` is a tree with all trivia tokens taken out: the nodes, how they are nested and the
significant tokens in them.
-/

namespace CodeMend.Tree

mutual

/-- The tree without the trivia below it. -/
def bare : Tree → Tree
  | token k s => token k s
  | node k cs => node k (bareAll cs)

/-- A row of trees without trivia. -/
def bareAll : List Tree → List Tree
  | [] => []
  | t :: ts => if t.isTrivia then bareAll ts else bare t :: bareAll ts

end

@[simp] theorem bareAll_nil : bareAll [] = [] := rfl

theorem bareAll_append (ts us : List Tree) : bareAll (ts ++ us) = bareAll ts ++ bareAll us := by
  induction ts with
  | nil => rfl
  | cons t ts ih =>
      by_cases htrivia : t.isTrivia = true
      · simp [bareAll, htrivia, ih]
      · simp [bareAll, htrivia, ih]

theorem bareAll_node (k : Kind) (cs : List Tree) : bareAll [node k cs] = [node k (bareAll cs)] := rfl

/-- Trivia leaves nothing. -/
theorem bareAll_eq_nil {ts : List Tree} (h : ∀ t ∈ ts, t.isTrivia = true) : bareAll ts = [] := by
  induction ts with
  | nil => rfl
  | cons t ts ih =>
      have hrest := ih fun u hu => h u (List.mem_cons_of_mem t hu)
      simpa [bareAll, h t List.mem_cons_self] using hrest

/-- The significant ones among stored tokens. -/
def significant (xs : Stored) : Stored := xs.filter (fun x => !x.1.isTrivia)

@[simp] theorem significant_append (xs ys : Stored) :
    significant (xs ++ ys) = significant xs ++ significant ys := List.filter_append xs ys

/-- Without trivia a tree keeps its significant tokens. -/
theorem tokens_bare :
    (∀ t : Tree, t.isTrivia = false → t.bare.tokens = significant t.tokens) ∧
    ∀ ts, tokensAll (bareAll ts) = significant (tokensAll ts) := by
  apply induct
  · intro k s h
    have hk : k.isTrivia = false := h
    simp [bare, tokens, significant, hk]
  · intro k cs ih _
    simpa [bare, tokens] using ih
  · rfl
  · intro t ts ht hts
    cases htrivia : t.isTrivia with
    | true =>
        have hzero : significant t.tokens = [] := by
          cases t with
          | token k s =>
              have hk : k.isTrivia = true := htrivia
              simp [tokens, significant, hk]
          | node k cs => cases htrivia
        simp [bareAll, htrivia, tokensAll, hts, hzero]
    | false => simp [bareAll, htrivia, tokensAll, hts, ht htrivia]

end CodeMend.Tree

import CodeMend.Proofs.Trivia.Ownership

/-!
# Nodes exclude the trivia around them

Trivia waits until a node is opened and goes before it, so a node starts with a significant token
whatever the text is.  Where there is nothing to complain about, each node has a token and ends with
a significant one too.  The span of a node is then the stretch from its first significant token to
its last, and whoever locates, removes or indents nodes need not look for trivia at their borders.

The tokens below a site are those of its tree (`subtokens_tokens`), so what the parser promises
about trees holds of the sites of a document.
-/

namespace CodeMend.Site

open Tree

/-- The tokens below a tree at a place, or of trees side by side, are the stored ones. -/
theorem subtree_tokens :
    (∀ t origin here above, ((subtreeOf origin here above t).filter isToken).flatMap
      (·.tree.tokens) = t.tokens) ∧
    ∀ ts origin k start above here before,
      ((subtreesOf origin k start above here before ts).filter isToken).flatMap
        (·.tree.tokens) = tokensAll ts := by
  apply induct
  · intro k text origin here above
    exact List.append_nil _
  · intro k cs ih origin here above
    rw [subtreeOf, List.filter_cons_of_neg (by simp [isToken, Tree.isToken]), ih, Tree.tokens]
  · intro origin k start above here before
    rfl
  · intro t ts ht hts origin k start above here before
    rw [subtreesOf, List.filter_append, List.flatMap_append, ht, hts, tokensAll]

theorem subtokens_tokens (s : Site) : s.subtokens.flatMap (·.tree.tokens) = s.tree.tokens :=
  subtree_tokens.1 s.tree s.origin s.start s.above

/-- A node that starts with no trivia has no trivia as its first token. -/
theorem isTrivia_of_head_subtokens {n t : Site} (hstarts : StartsSignificant n.tree.tokens)
    (ht : t ∈ n.subtokens.head?) : t.isTrivia = false := by
  obtain ⟨others, hothers⟩ := List.head?_eq_some_iff.1 (Option.mem_def.1 ht)
  have htoken : t.isToken = true :=
    (List.mem_filter.1 (show t ∈ n.subtokens by rw [hothers]; simp)).2
  obtain ⟨k, text, htree, htrivia⟩ := isTrivia_of_isToken htoken
  rw [htrivia]
  refine hstarts (k, text) ?_
  rw [← subtokens_tokens, hothers, List.flatMap_cons, htree]
  rfl

/-- The tokens of a node that has a token are those between its first and its last one. -/
theorem Framed.subtokens_ends {n first last : Site} (h : Framed n first last)
    (hfull : n.tree.EveryNode FullNode) :
    n.subtokens.head? = some first ∧ n.subtokens.getLast? = some last := by
  obtain ⟨others, hheads⟩ := h.heads
  obtain ⟨others', hends⟩ := h.ends
  constructor
  · rw [← leaves_eq_subtokens hfull, hheads, List.head?_cons]
  · rw [← leaves_eq_subtokens hfull, hends, List.getLast?_append, List.getLast?_singleton,
      Option.some_or]

end CodeMend.Site

namespace CodeMend

open Tree Site

/-- **Nodes exclude the trivia around them.**  Whatever the text, no node below the root has trivia
as its first token.  If the text parses without errors, each node below the root has tokens, the
first and the last of them are significant, and its span reaches from the one to the other. -/
theorem nodes_exclude_trivia (version : Nat) (text : String) :
    let document := Document.ofText version text
    document.root.kind = .compilationUnit ∧
    (∀ n ∈ document.root.subnodes, n ≠ document.root →
      ∀ t ∈ n.subtokens.head?, t.isTrivia = false) ∧
    (document.errors = [] → ∀ n ∈ document.root.subnodes, n ≠ document.root →
      ∃ first last, n.subtokens.head? = some first ∧ n.subtokens.getLast? = some last ∧
        first.isTrivia = false ∧ last.isTrivia = false ∧
        n.firstSignificant? = some first ∧ n.lastSignificant? = some last ∧
        n.span = ⟨first.start, last.stop⟩) := by
  intro document
  obtain ⟨cs, htree, -, hfresh, hfull⟩ := parse_tree text
  have hroot : document.root = top version (.node .compilationUnit cs) :=
    congrArg (top version) htree
  -- what lies below the root lies below one of its children
  have hbelow : ∀ n ∈ document.root.subnodes, n ≠ document.root →
      n ∈ subtreesOf version .compilationUnit 0 [] 0 [] cs := by
    intro n hn hne
    rw [hroot] at hn hne
    exact (List.mem_cons.1 (List.mem_filter.1 hn).1).resolve_left hne
  refine ⟨by rw [hroot]; rfl, fun n hn hne t ht => ?_, fun hclean n hn hne => ?_⟩
  · have hnode := everyNode_of_mem.2 cs _ _ _ _ _ _ hfresh n (hbelow n hn hne)
    refine isTrivia_of_head_subtokens ?_ ht
    cases htree : n.tree with
    | token k text =>
        have hisNode := (List.mem_filter.1 hn).2
        rw [Site.isNode, htree] at hisNode
        cases hisNode
    | node k ds =>
        rw [htree] at hnode
        exact hnode.1
  · obtain ⟨first, last, hframed⟩ := (Document.clean_root hclean).framed n hn hne
    have hnode := everyNode_of_mem.2 cs _ _ _ _ _ _ (hfull hclean) n (hbelow n hn hne)
    obtain ⟨hhead, hlast⟩ := hframed.subtokens_ends hnode
    exact ⟨first, last, hhead, hlast, isTrivia_of_isSignificant hframed.significant.1,
      isTrivia_of_isSignificant hframed.significant.2, hframed.firstSignificant,
      hframed.lastSignificant, hframed.span_eq⟩

end CodeMend

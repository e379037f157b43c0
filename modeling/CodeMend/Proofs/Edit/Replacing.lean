import CodeMend.Edit.Editor
import CodeMend.Proofs.Edit.Batch
import CodeMend.Proofs.Edit.Holes
import CodeMend.Proofs.Edit.Orphans
import CodeMend.Proofs.Edit.Stitching
import CodeMend.Proofs.Engine.Runs
import CodeMend.Proofs.Parser.Heights
import CodeMend.Proofs.Trivia.Tight

/-!
# Replacing a node replaces nothing else

The editor replaces a node by a splice that knows the span and the kind of the node, and the splice
looks for the node again from the root.  If no node above has both, the splice finds the node itself
(`Site.splice_graft`), and the outcome is the old tree in which the new trees stand among the children
of the parent where the node stood: a `Hole` at the parent, and nothing else.
-/

namespace CodeMend

open Tree Site

namespace Site

variable {origin : Nat} {t : Tree} {s : Site}

/-- Every site but the root has a parent. -/
theorem parent?_isSome (hs : s ∈ (top origin t).subtree) (hroot : s ≠ top origin t) :
    ∃ p, s.parent? = some p := by
  cases habove : s.above with
  | nil =>
      refine absurd (eq_of_path_eq.1 t origin 0 [] s hs (top origin t) (mem_subtree_self _) ?_) hroot
      rw [path, habove]
      rfl
  | cons f fs =>
      rw [parent?, habove]
      exact ⟨_, rfl⟩

/-- **Grafting changes one row of children.**  The parent gets the new trees in the place of the
site's, and all around the parent stays. -/
theorem graft_hole {p : Site} (hs : s ∈ (top origin t).subtree) (hparent : s.parent? = some p)
    (new : List Tree) : ∃ k before after, p.tree = .node k (before ++ s.tree :: after) ∧
      s.path = before.length :: p.path ∧
      Hole p.tree (.node k (before ++ (new ++ after))) p.path t (s.graft new) := by
  have hrebuild := rebuild_eq hs
  obtain ⟨tree, start, above, _⟩ := s
  cases above with
  | nil => cases hparent
  | cons f fs =>
      obtain rfl := Option.some.inj hparent
      refine ⟨f.kind, f.before.reverse, f.after, rfl, by simp [path], ?_⟩
      have hhere : Hole (Frame.close f tree) (.node f.kind (f.before.reverse ++ (new ++ f.after))) []
          (Frame.close f tree) (.node f.kind (f.before.reverse ++ (new ++ f.after))) := .here
      have hole := hhere.rebuild fs
      rw [List.nil_append] at hole
      rw [← hrebuild]
      exact hole

end Site

/-! ## Nodes of parsed trees -/

/-- In a tree that was parsed only the end of the file has no text. -/
theorem parse_lettered (text : String) : Parse.Lettered (parse text).1.tokens := by
  obtain ⟨body, htokens, hkinds⟩ := parse_ended text
  obtain ⟨body', htokens', hsolid⟩ := (parse_regular text).ends
  obtain rfl : body = body' := (List.append_inj' (htokens.symm.trans htokens') rfl).1
  intro x hx
  rw [htokens] at hx
  rcases List.mem_append.1 hx with hx | hx
  · simp [hkinds x hx, hsolid x hx]
  · simp [List.mem_singleton.1 hx]

namespace Site

/-- A node that covers the text of a node below it stands higher. -/
theorem height_lt {s p : Site} (hnode : s.isNode = true) (hwidth : 0 < s.tree.width)
    (habove : ∀ q ∈ s.properAncestors, q.tree.EveryNode Parse.Stepped ∧ Parse.Lettered q.tree.tokens)
    (hp : p ∈ s.properAncestors) (hsame : p.tree.width = s.tree.width) :
    Parse.height s.kind < Parse.height p.kind := by
  obtain ⟨tree, start, above, origin⟩ := s
  induction above generalizing tree start with
  | nil => cases hp
  | cons f fs ih =>
      have hparent : tree.width ≤ (Frame.close f tree).width :=
        width_le_widthAll (List.mem_append_right _ List.mem_cons_self)
      obtain ⟨hparentMem, hrest⟩ := List.forall_mem_cons.1 habove
      have hdirect (heq : (Frame.close f tree).width = tree.width) :
          Parse.height tree.kind < Parse.height f.kind :=
        Parse.Thin.height_lt hparentMem.1.1 hparentMem.2 hnode hwidth heq
      rcases List.mem_cons.1 hp with rfl | hp
      · exact hdirect hsame
      · have hle := width_le_of_mem_properAncestors (s := ⟨Frame.close f tree, f.start, fs, origin⟩) hp
        have heq : (Frame.close f tree).width = tree.width := by
          dsimp only at hsame hle
          omega
        refine Nat.lt_trans (hdirect heq) ?_
        exact ih (Frame.close f tree) f.start rfl (by rw [heq]; exact hwidth) hrest hp
          (hsame.trans heq.symm)

end Site

/-- **In a parsed tree every node is the topmost one** with its span and its kind, if it has text. -/
theorem Document.topmost (version : Nat) (text : String) {n : Site}
    (hn : n ∈ (ofText version text).root.subtree) (hnode : n.isNode = true)
    (hwidth : 0 < n.tree.width) : n.Topmost := by
  intro p hp hspan hkind
  have hletters : Parse.Lettered (ofText version text).tree.tokens := parse_lettered text
  have habove : ∀ q ∈ n.properAncestors,
      q.tree.EveryNode Parse.Stepped ∧ Parse.Lettered q.tree.tokens := by
    intro q hq
    have hmem := ancestors_mem hn (List.mem_cons_of_mem n hq)
    exact ⟨everyNode_of_mem.1 _ _ _ _ (parse_stepped text) q hmem, fun x hx =>
      hletters x (tokens_subset_of_mem hmem hx)⟩
  have hsame : p.tree.width = n.tree.width := by
    have hstart : p.start = n.start := congrArg Span.start hspan
    have hstop : p.start + p.tree.width = n.start + n.tree.width := congrArg Span.stop hspan
    omega
  have hlt := height_lt hnode hwidth habove hp hsame
  rw [hkind] at hlt
  exact Nat.lt_irrefl _ hlt

namespace Patch

/-- A splice within the text that the tree takes makes a patch that goes through. -/
theorem apply_of_splice {d : Document} {s : Splice} (hordered : s.span.Ordered)
    (hwithin : s.span.stop ≤ d.length) {tree : Tree} (htree : d.tree.splice s = .ok tree)
    (stamp : Nat) :
    (⟨d.version, [s]⟩ : Patch).apply d stamp = .ok ⟨⟨tree, [], stamp, stamp⟩, placed 0 [s]⟩ :=
  apply_of_apart (List.Perm.refl [s]) (List.forall_mem_singleton.2 hordered)
    (List.forall_mem_singleton.2 hwithin) (List.pairwise_singleton _ s) htree (reachable_singleton s)
    stamp

end Patch

namespace Editor

variable {d : Document} {n : Site} {r : Replacement} {e : Editor}

/-- **Replacing a node replaces exactly that node.**  If the node has text, is not the root and no
node above has its kind and its span, then the patch goes through, and in the new tree the new trees
stand among the children of the parent where the node stood.  All else is as it was.  In a parsed tree
no node with text has a node above it with its kind and its span. -/
theorem replaceNode_exact :
    (∀ (d : Document) (n : Site) (r : Replacement) (e : Editor) (stamp : Nat),
      n ∈ d.root.subtree → n.isNode = true → 0 < n.tree.width → n ≠ d.root →
      (∀ p ∈ n.properAncestors, p.span = n.span → p.kind ≠ n.kind) →
      replaceNode ⟨d, []⟩ n r = .ok e →
      ∃ o p k before after, e.patch.apply d stamp = .ok o ∧
        n.parent? = some p ∧ p ∈ d.root.subtree ∧ p.tree = .node k (before ++ n.tree :: after) ∧
        n.path = before.length :: p.path ∧
        Hole p.tree (.node k (before ++ (r.elements ++ after))) p.path d.tree o.document.tree) ∧
    ∀ version text n, n ∈ (Document.ofText version text).root.subtree → n.isNode = true →
      0 < n.tree.width → ∀ p ∈ n.properAncestors, p.span = n.span → p.kind ≠ n.kind := by
  refine ⟨fun d n r e stamp hn hnode hwidth hroot htop h => ?_, fun version text n hn hnode hwidth =>
    Document.topmost version text hn hnode hwidth⟩
  obtain rfl := replaceNode_ok h
  have htree := splice_graft hn hnode hwidth htop hroot r
  have hwithin : n.stop ≤ d.length := by
    have hstop := (subtree_within.1 d.tree d.origin 0 [] n hn).2
    rwa [Nat.zero_add] at hstop
  have happly := Patch.apply_of_splice (s := ⟨n.span, some n.kind, r⟩) (Nat.le_add_right _ _) hwithin
    htree stamp
  obtain ⟨p, hparent⟩ := parent?_isSome hn hroot
  obtain ⟨k, before, after, hp, hpath, hole⟩ := graft_hole hn hparent r.elements
  exact ⟨_, p, k, before, after, happly, hparent, ancestors_mem hn (parent_mem_ancestors hparent), hp,
    hpath, hole⟩

/-- An argument and its expression have the same span; the argument stays when the expression is
replaced. -/
theorem replaceNode_exact_argument :
    let d := Document.ofText 1 "class C \x7b void F() \x7b M(1); \x7d \x7d"
    let n := d.firstNode .literalExpression
    let name : Tree := .node .identifierName [.token .ident "b"]
    ∃ e o p before after, replaceNode ⟨d, []⟩ n ⟨[name], []⟩ = .ok e ∧
      e.patch.apply d 2 = .ok o ∧ n.parent? = some p ∧ p.kind = .argument ∧ p.span = n.span ∧
      o.document.text = "class C \x7b void F() \x7b M(b); \x7d \x7d" ∧
      Hole p.tree (.node .argument (before ++ ([name] ++ after))) p.path d.tree o.document.tree := by
  intro d n name
  have hmem : n ∈ d.root.subnodes := Document.firstNode_mem (by decide +kernel)
  have hreplaced : (replaceNode ⟨d, []⟩ n ⟨[name], []⟩).toOption.bind (fun e =>
      (e.patch.apply d 2).toOption.map (·.document.text)) =
      some "class C \x7b void F() \x7b M(b); \x7d \x7d" := by decide +kernel
  have hargument : n.parent?.map (fun p => (p.kind, p.span)) = some (.argument, n.span) := by
    decide +kernel
  obtain ⟨e, he, hrest⟩ := Option.bind_eq_some_iff.1 hreplaced
  obtain ⟨o', ho', htext⟩ := Option.map_eq_some_iff.1 hrest
  obtain ⟨q, hq, hkind⟩ := Option.map_eq_some_iff.1 hargument
  obtain ⟨hkind, hspan⟩ := Prod.mk.inj hkind
  have hne : n ≠ d.root := by
    intro hroot
    have hkinds : n.kind = d.root.kind := congrArg Site.kind hroot
    revert hkinds
    decide +kernel
  have hsubtree : n ∈ d.root.subtree := (List.mem_filter.1 hmem).1
  have hnode : n.isNode = true := (List.mem_filter.1 hmem).2
  have hwidth : 0 < n.tree.width := by decide +kernel
  obtain ⟨hexact, htopmost⟩ := replaceNode_exact
  obtain ⟨o, p, k, before, after, ho, hp, -, htree, -, hole⟩ :=
    hexact d n ⟨[name], []⟩ e 2 hsubtree hnode hwidth hne (htopmost 1 _ n hsubtree hnode hwidth)
      (eq_ok_of_toOption he)
  obtain rfl : o' = o := Except.ok.inj ((eq_ok_of_toOption ho').symm.trans ho)
  obtain rfl : q = p := Option.some.inj (hq.symm.trans hp)
  obtain rfl : k = .argument := by rw [← hkind, Site.kind, htree, Tree.kind]
  exact ⟨e, o', q, before, after, eq_ok_of_toOption he, ho, hp, hkind, hspan, htext, hole⟩

end Editor

end CodeMend

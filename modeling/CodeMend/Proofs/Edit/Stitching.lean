import CodeMend.Edit.Editor
import CodeMend.Proofs.Edit.Batch

/-!
# Patches on tokens

`Stitched` relates tokens to what splices make of them: each splice takes out a stretch of tokens and
puts others in its place, with tokens between one stretch and the next.  Where all tokens have text
there is one place for each span, so the tree gets just these tokens (`splice_tokens`), and a patch of
such splices goes through (`Stitched.apply`).
-/

namespace CodeMend

open Tree

/-! ## What the editor collects -/

namespace Editor

theorem replaceNode_ok {e e' : Editor} {n : Site} {r : Replacement} (h : e.replaceNode n r = .ok e') :
    e' = e.push ⟨n.span, some n.kind, r⟩ := by
  obtain ⟨-, -, h⟩ := bind_eq_ok h
  obtain ⟨-, -, h⟩ := bind_eq_ok h
  cases h
  rfl

theorem insertAt_ok {e e' : Editor} {offset : Nat} {new : Replacement}
    (h : e.insertAt offset new = .ok e') : e' = e.push (.insert offset new) := by
  unfold Editor.insertAt at h
  split at h
  · cases h
  · exact (Except.ok.inj h).symm

theorem insertAfter_ok {e e' : Editor} {anchor : Site} {new : Replacement}
    (h : e.insertAfter anchor new = .ok e') : e' = e.push ⟨anchor.span, some anchor.kind,
      ⟨anchor.tree :: new.elements, new.annotations.map (·.shift anchor.span.length)⟩⟩ := by
  unfold Editor.insertAfter at h
  obtain ⟨-, -, h⟩ := bind_eq_ok h
  exact (Except.ok.inj h).symm

end Editor

/-! ## Splices and tokens -/

/-- What splices make of tokens.  The tokens start at the first number.  Before the stretch that a
splice replaces stand tokens that stay, or the stretch is what the text starts with. -/
inductive Stitched : Nat → Stored → List Splice → Stored → Prop where
  | rest (here : Nat) (xs : Stored) : Stitched here xs [] xs
  | swap {here : Nat} {front cut xs ys : Stored} {s : Splice} {ss : List Splice}
      (gap : front ≠ [] ∨ here = 0 ∧ cut ≠ [])
      (start : s.span.start = here + widthOf front)
      (stop : s.span.stop = here + widthOf front + widthOf cut)
      (rest : Stitched (here + widthOf front + widthOf cut) xs ss ys) :
      Stitched here (front ++ (cut ++ xs)) (s :: ss)
        (front ++ (tokensAll s.replacement.elements ++ ys))

/-! ## Tokens with text -/

/-- A row of tokens with text has one cut of a given width. -/
theorem eq_of_widthOf_eq {p q p' q' : Stored} (h : p ++ q = p' ++ q')
    (hsolid : ∀ x ∈ p ++ q, x.2 ≠ "") (hwidth : widthOf p = widthOf p') : p = p' ∧ q = q' := by
  have hnil (more : Stored) (hmore : ∀ x ∈ more, x.2 ≠ "") (hzero : widthOf more = 0) :
      more = [] := by
    rw [← solid_eq_self hmore, solid_eq_nil hzero]
  rcases List.append_eq_append_iff.1 h with ⟨more, rfl, rfl⟩ | ⟨more, rfl, rfl⟩
  · obtain rfl := hnil more (fun x hx => hsolid x (by simp [hx])) (by
      rw [widthOf_append] at hwidth
      omega)
    simp
  · obtain rfl := hnil more (fun x hx => hsolid x (by simp [hx])) (by
      rw [widthOf_append] at hwidth
      omega)
    simp

theorem widthOf_pos {xs : Stored} (hne : xs ≠ []) (hsolid : ∀ x ∈ xs, x.2 ≠ "") : 0 < widthOf xs := by
  refine Nat.pos_of_ne_zero fun hzero => hne ?_
  rw [← solid_eq_self hsolid, solid_eq_nil hzero]

/-- One splice of a node whose tokens all have text. -/
theorem splice_tokens {k : Kind} {cs : List Tree} {s : Splice} {p c q : Stored}
    (htokens : tokensAll cs = p ++ (c ++ q)) (hsolid : ∀ x ∈ tokensAll cs, x.2 ≠ "")
    (hstart : widthOf p = s.span.start) (hstop : s.span.start + widthOf c = s.span.stop) :
    ∃ ds, (Tree.node k cs).splice s = .ok (.node k ds) ∧
      tokensAll ds = p ++ (tokensAll s.replacement.elements ++ q) := by
  have hwidth : s.span.stop ≤ (Tree.node k cs).width := by
    rw [width_eq.1, Tree.tokens, htokens, widthOf_append, widthOf_append]
    omega
  have hexact := splice_exact (t := .node k cs) rfl s (by omega) hwidth
  have hborder : Border 0 (Tree.node k cs).tokens s.span.start :=
    ⟨p, c ++ q, htokens, by omega⟩
  have hborder' : Border 0 (Tree.node k cs).tokens s.span.stop :=
    ⟨p ++ c, q, by rw [Tree.tokens, htokens, List.append_assoc], by rw [widthOf_append]; omega⟩
  obtain ⟨us, hus⟩ := hexact.total hborder hborder'
  obtain ⟨u, hu, rfl⟩ := map_eq_ok hus
  obtain ⟨ds, rfl⟩ := splice_node hu
  refine ⟨ds, hu, ?_⟩
  obtain ⟨before, cut, after, rest, hxs, hys, hbefore, hcut, hrest, hsame⟩ := hexact.sound _ hus
  have hds : tokensAll ds = before ++ (tokensAll s.replacement.elements ++ rest) := by
    simpa [tokensAll, Tree.tokens] using hys
  have hxs : tokensAll cs = before ++ (cut ++ after) := hxs
  -- nothing without text could outlast the cut
  obtain rfl : rest = after := by
    rw [hxs] at hsolid
    rwa [solid_eq_self fun x hx => hsolid x (List.mem_append_right _ (hrest.subset hx)),
      solid_eq_self fun x hx => hsolid x (by simp [hx])] at hsame
  obtain ⟨rfl, hbehind⟩ := eq_of_widthOf_eq (hxs.symm.trans htokens) (hxs ▸ hsolid) (by omega)
  obtain ⟨-, rfl⟩ := eq_of_widthOf_eq hbehind
    (fun x hx => hsolid x (by rw [hxs]; exact List.mem_append_right _ hx)) (by omega)
  exact hds

/-! ## One splice -/

/-- What a patch of one splice makes of the tokens before the end of the file. -/
theorem Patch.tokens_of_apply {d : Document} {s : Splice} {stamp : Nat} {o : Outcome} {k : Kind}
    {cs : List Tree} {last : Tree} {p c q : Stored}
    (h : Patch.apply ⟨d.version, [s]⟩ d stamp = .ok o) (htree : d.tree = .node k (cs ++ [last]))
    (htokens : tokensAll cs = p ++ (c ++ q)) (hsolid : ∀ x ∈ tokensAll cs, x.2 ≠ "")
    (hstart : s.span.start = widthOf p) (hstop : s.span.stop = widthOf p + widthOf c) :
    o.document.tree.tokens = p ++ (tokensAll s.replacement.elements ++ q) ++ last.tokens := by
  obtain ⟨-, hsplice, -⟩ := apply_single h
  obtain ⟨ds, hds, hdstokens⟩ := splice_tokens (k := k) htokens hsolid hstart.symm (by omega)
  have hwithin : s.span.stop ≤ widthAll cs := by
    rw [width_eq.2, htokens, widthOf_append, widthOf_append]
    omega
  rw [htree, splice_append_last last (by omega) hwithin hds] at hsplice
  rw [← Except.ok.inj hsplice, Tree.tokens, tokensAll_append, hdstokens]
  simp [tokensAll]

namespace Stitched

variable {here : Nat} {xs ys : Stored} {ss : List Splice}

/-- One more token that stays. -/
theorem cons {x : Kind × String} (h : Stitched (here + x.2.utf8ByteSize) xs ss ys) :
    Stitched here (x :: xs) ss (x :: ys) := by
  cases h with
  | rest => exact .rest _ _
  | @swap _ front cut xs ys s ss gap start stop rest =>
      have hwidth : here + widthOf (x :: front) = here + x.2.utf8ByteSize + widthOf front := by
        rw [widthOf_cons, Nat.add_assoc]
      exact @Stitched.swap here (x :: front) cut _ _ _ _ (.inl (List.cons_ne_nil _ _)) (hwidth ▸ start)
        (hwidth ▸ stop) (hwidth ▸ rest)

/-! ## Where the splices lie -/

/-- Only the start of the text has nothing before the splice, and no splice ends there. -/
theorem swap_spans {front cut : Stored} (gap : front ≠ [] ∨ here = 0 ∧ cut ≠ [])
    (hfront : ∀ x ∈ front, x.2 ≠ "") (hcut : ∀ x ∈ cut, x.2 ≠ "") :
    (here = 0 ∨ 0 < widthOf front) ∧ 0 < here + widthOf front + widthOf cut := by
  rcases gap with hne | ⟨rfl, hne⟩
  · have := widthOf_pos hne hfront
    omega
  · have := widthOf_pos hne hcut
    omega

/-- The splices lie in the row, and none but one at the start of the file starts where the row
does. -/
theorem spans (h : Stitched here xs ss ys) (hxs : ∀ x ∈ xs, x.2 ≠ "") :
    ∀ s ∈ ss, (here = 0 ∨ here < s.span.start) ∧ s.span.start ≤ s.span.stop ∧
      s.span.stop ≤ here + widthOf xs := by
  induction h with
  | rest => exact fun s hs => nomatch hs
  | @swap here front cut xs ys s ss gap start stop rest ih =>
      have hspans := swap_spans gap (fun x hx => hxs x (by simp [hx])) fun x hx => hxs x (by simp [hx])
      intro r hr
      simp only [widthOf_append]
      rcases List.mem_cons.1 hr with rfl | hr
      · omega
      · have hr := ih (fun x hx => hxs x (by simp [hx])) r hr
        omega

/-- The splices follow each other, with text between them. -/
theorem apart (h : Stitched here xs ss ys) (hxs : ∀ x ∈ xs, x.2 ≠ "") :
    ss.Pairwise (fun s t => s.span.stop < t.span.start) := by
  induction h with
  | rest => exact List.Pairwise.nil
  | @swap here front cut xs ys s ss gap start stop rest ih =>
      have hspans := swap_spans gap (fun x hx => hxs x (by simp [hx])) fun x hx => hxs x (by simp [hx])
      have hrest : ∀ x ∈ xs, x.2 ≠ "" := fun x hx => hxs x (by simp [hx])
      refine List.pairwise_cons.2 ⟨fun r hr => ?_, ih hrest⟩
      rw [stop]
      exact (rest.spans hrest r hr).1.resolve_left (by omega)

/-- The new text can be reached if it is nowhere longer than the old one, or short enough. -/
theorem reachable (h : Stitched 0 xs ss ys) (hxs : ∀ x ∈ xs, x.2 ≠ "") {length : Nat}
    (hwithin : widthOf xs ≤ length)
    (hlength : (∀ s ∈ ss.dropLast, s.growth ≤ 0) ∨
      (length : Int) + Patch.totalGrowth ss ≤ Patch.maxOffset) : Patch.Reachable 0 ss := by
  have hspans := h.spans hxs
  have hordered : ∀ s ∈ ss, s.span.Ordered := fun s hs => (hspans s hs).2.1
  have hapart : ss.Pairwise fun s t => s.span.stop ≤ t.span.start :=
    (h.apart hxs).imp Nat.le_of_lt
  rcases hlength with hshrinks | hlength
  · exact Patch.reachable_of_shrinking (x := 0) (Int.le_refl 0) (Int.le_refl 0)
      (fun _ _ => Nat.zero_le _) hordered hapart hshrinks
  · refine Patch.reachable_of_length (x := 0) (Int.le_refl 0) (fun _ _ => Nat.zero_le _) hordered
      (fun s hs => ?_) hapart (by rwa [Int.zero_add])
    have := hspans s hs
    omega

/-! ## What the splices make of a tree -/

/-- The last splice comes first, so the tokens before a splice are still the old ones. -/
theorem spliceAll_tokens (h : Stitched here xs ss ys) (k : Kind) {cs : List Tree} (last : Tree)
    (hsolid : ∀ x ∈ tokensAll cs, x.2 ≠ "") (hys : ∀ y ∈ ys, y.2 ≠ "") (front : Stored)
    (htokens : tokensAll cs = front ++ xs) (hfront : widthOf front = here) :
    ∃ ds, Patch.spliceAll (.node k (cs ++ [last])) ss = .ok (.node k (ds ++ [last])) ∧
      tokensAll ds = front ++ ys := by
  induction h generalizing front with
  | rest => exact ⟨cs, rfl, htokens⟩
  | @swap here before cut xs ys s ss gap start stop rest ih =>
      obtain ⟨ds, hds, hdstokens⟩ := ih (fun y hy => hys y (by simp [hy])) (front ++ (before ++ cut))
        (by rw [htokens]; simp only [List.append_assoc])
        (by rw [widthOf_append, widthOf_append, hfront, Nat.add_assoc])
      have hsplit : tokensAll ds = (front ++ before) ++ (cut ++ ys) := by
        rw [hdstokens]
        simp only [List.append_assoc]
      have hdsolid : ∀ x ∈ tokensAll ds, x.2 ≠ "" := by
        intro x hx
        rw [hsplit] at hx
        rw [htokens] at hsolid
        simp only [List.mem_append] at hx hsolid hys
        rcases hx with (hx | hx) | hx | hx
        · exact hsolid x (Or.inl hx)
        · exact hsolid x (Or.inr (Or.inl hx))
        · exact hsolid x (Or.inr (Or.inr (Or.inl hx)))
        · exact hys x (Or.inr (Or.inr hx))
      have hstart : widthOf (front ++ before) = s.span.start := by
        rw [widthOf_append, hfront, start]
      obtain ⟨es, hes, hestokens⟩ := splice_tokens (k := k) hsplit hdsolid hstart (by omega)
      refine ⟨es, ?_, by rw [hestokens, List.append_assoc]⟩
      rw [Patch.spliceAll, hds]
      refine splice_append_last last (by omega) ?_ hes
      rw [width_eq.2, hsplit, widthOf_append, hstart, widthOf_append]
      omega

/-- **The splices, in any order, make a patch that goes through** and gives the new tokens. -/
theorem apply (h : Stitched 0 xs ss ys) {d : Document} {k : Kind} {cs : List Tree} {last : Tree}
    (htree : d.tree = .node k (cs ++ [last])) (htokens : tokensAll cs = xs)
    (hxs : ∀ x ∈ xs, x.2 ≠ "") (hys : ∀ y ∈ ys, y.2 ≠ "") {splices : List Splice}
    (hperm : splices.Perm ss) (hreach : Patch.Reachable 0 ss) (stamp : Nat) :
    ∃ o, (⟨d.version, splices⟩ : Patch).apply d stamp = .ok o ∧ o.annotations = Patch.placed 0 ss ∧
      o.document.tree.tokens = ys ++ last.tokens := by
  have hspans := h.spans hxs
  have hwithin : ∀ s ∈ ss, s.span.stop ≤ d.length := by
    intro s hs
    have := hspans s hs
    rw [Document.length, width_eq.1, htree, Tree.tokens, tokensAll_append, htokens, widthOf_append]
    omega
  obtain ⟨ds, hds, hdstokens⟩ := h.spliceAll_tokens k last (htokens ▸ hxs) hys [] htokens rfl
  rw [← htree] at hds
  refine ⟨_, Patch.apply_of_apart hperm (fun s hs => (hspans s hs).2.1) hwithin (h.apart hxs)
    hds hreach stamp, rfl, ?_⟩
  simp [Tree.tokens, tokensAll_append, hdstokens, tokensAll]

end Stitched

end CodeMend

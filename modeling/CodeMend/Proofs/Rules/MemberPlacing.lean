import CodeMend.Proofs.Edit.NewLine
import CodeMend.Proofs.Edit.Stitching
import CodeMend.Proofs.Engine.Runs
import CodeMend.Proofs.Parser.Enumerations
import CodeMend.Proofs.Rules.MemberChoice
import CodeMend.Proofs.Trivia.Closing

/-!
# The place of a new member

The refactoring knows six layouts, but all of them put the new member behind some child of the
enumeration, with separators around it: behind the last member, behind the comma that follows it,
behind the opening brace, or behind what trails the comma or the brace on its line (`Placing`).  There
are only tokens from there to the closing brace, since the text is without errors.
-/

namespace CodeMend.Rules.NewEnumMember

open Site Tree

/-- Is it a member of an enumeration? -/
def isMember (r : Site) : Bool := r.isNode && r.kind == .enumMemberDeclaration

theorem isMember_of_isToken {r : Site} (h : r.isToken = true) : isMember r = false := by
  simp [isMember, Site.isNode, Tree.isNode, show r.tree.isToken = true from h]

theorem isMember_of_unlisted {before : List Site} (h : Parse.Unlisted (before.map tree)) {r : Site}
    (hr : r ∈ before) : isMember r = false := by
  have hunlisted := (h r.tree (List.mem_map_of_mem hr)).2
  obtain ⟨tree, start, above, origin⟩ := r
  cases tree with
  | token k text => rfl
  | node k cs => exact (BEq.comm (a := k)).trans hunlisted

/-- Between the braces of an enumeration all but its members are tokens. -/
theorem isToken_of_listed {body : List Site} (h : Parse.Listed (body.map tree)) {r : Site}
    (hr : r ∈ body) (hnot : isMember r = false) : r.isToken = true := by
  have hlisted := h r.tree (List.mem_map_of_mem hr)
  obtain ⟨tree, start, above, origin⟩ := r
  cases tree with
  | token k text => rfl
  | node k cs =>
      have hkind : k = .enumMemberDeclaration := hlisted rfl
      subst hkind
      cases hnot

section Parts

variable {version : Nat} {text : String} {enum : Site}
  (hclean : (Document.ofText version text).errors = [])
  (henum : enum ∈ (Document.ofText version text).root.subtree)
  (hkind : enum.kind = .enumDeclaration) (hnode : enum.isNode = true)

include hclean henum hkind hnode

/-- The children of an enumeration: its members stand between its braces. -/
theorem exists_parts : ∃ before opening body closing rest,
    enum.children = before ++ opening :: (body ++ closing :: rest) ∧
      (opening.isToken = true ∧ opening.kind = .lBrace) ∧
      (closing.isToken = true ∧ closing.kind = .rBrace) ∧ Parse.Unlisted (before.map tree) ∧
      Parse.Listed (body.map tree) ∧ ∀ t ∈ rest, t.isToken = true := by
  have hparted : Parse.Parted enum.tree.children := by
    have heach := everyNode_of_mem.1 _ _ _ _ (parse_enumerated hclean) enum henum
    obtain ⟨tree, start, above, origin⟩ := enum
    cases tree with
    | token k spelling => cases hnode
    | node k cs => exact heach.1 hkind
  obtain ⟨before, brace, body, brace', rest, htree, hbefore, hbody, hrest⟩ := hparted
  have hsplit := (map_tree_children enum).trans htree
  obtain ⟨before, others, hchildren, rfl, hothers⟩ := List.map_eq_append_iff.1 hsplit
  obtain ⟨opening, others', rfl, hopening, hothers'⟩ := List.map_eq_cons_iff.1 hothers
  obtain ⟨body, more, rfl, rfl, hmore⟩ := List.map_eq_append_iff.1 hothers'
  obtain ⟨closing, rest, rfl, hclosing, rfl⟩ := List.map_eq_cons_iff.1 hmore
  refine ⟨before, opening, body, closing, rest, hchildren, ?_, ?_, hbefore, hbody, fun t ht =>
    hrest t.tree (List.mem_map_of_mem ht)⟩
  · rw [Site.isToken, Site.kind, hopening]
    exact ⟨rfl, rfl⟩
  · rw [Site.isToken, Site.kind, hclosing]
    exact ⟨rfl, rfl⟩

/-- Behind the last member there are only tokens up to the closing brace. -/
theorem exists_tailed_last {last : Site} (hlast : enum.enumMembers.getLast? = some last) :
    ∃ left tail, Tailed enum left last tail := by
  obtain ⟨before, opening, body, closing, rest, hchildren, hopening, hclosing, hbefore, hbody, hrest⟩ :=
    exists_parts hclean henum hkind hnode
  have hmembers : enum.enumMembers = body.filter isMember := by
    have hnone : before.filter isMember = [] := List.filter_eq_nil_iff.2 fun r hr => by
      simp [isMember_of_unlisted hbefore hr]
    have hnone' : rest.filter isMember = [] := List.filter_eq_nil_iff.2 fun r hr => by
      simp [isMember_of_isToken (hrest r hr)]
    rw [enumMembers_eq, hchildren]
    show List.filter isMember _ = _
    rw [List.filter_append, List.filter_cons, isMember_of_isToken hopening.1, List.filter_append,
      List.filter_cons, isMember_of_isToken hclosing.1, hnone, hnone']
    simp
  obtain ⟨others, hothers⟩ := List.getLast?_eq_some_iff.1 hlast
  rw [hmembers] at hothers
  obtain ⟨front, more, rfl, -, hmore⟩ := List.filter_eq_append_iff.1 hothers
  obtain ⟨between, back, rfl, -, -, hback⟩ := List.filter_eq_cons_iff.1 hmore
  refine ⟨before ++ opening :: (front ++ between), back ++ closing :: rest, ?_, ?_, closing,
    by simp, hclosing.2⟩
  · rw [hchildren]
    simp
  · intro t ht
    rcases List.mem_append.1 ht with ht | ht
    · exact isToken_of_listed hbody (by simp [ht])
        (by simpa using List.filter_eq_nil_iff.1 hback t ht)
    · rcases List.mem_cons.1 ht with rfl | ht
      · exact hclosing.1
      · exact hrest t ht

/-- Without members there are only tokens between the braces. -/
theorem exists_tailed_opening {opening : Site} (hempty : enum.enumMembers = [])
    (hopening : enum.openBrace? = some opening) :
    (∃ left tail, Tailed enum left opening tail) ∧ opening.isToken = true ∧
      opening.kind = .lBrace := by
  obtain ⟨before, brace, body, closing, rest, hchildren, hbrace, hclosing, hbefore, hbody, hrest⟩ :=
    exists_parts hclean henum hkind hnode
  obtain rfl : brace = opening := by
    have hnone : (before.filter Site.isToken).find? (·.kind == .lBrace) = none := by
      refine List.find?_eq_none.2 fun r hr hfound => ?_
      obtain ⟨hmem, htoken⟩ := List.mem_filter.1 hr
      have hunlisted := (hbefore r.tree (List.mem_map_of_mem hmem)).1
      obtain ⟨tree, start, above, origin⟩ := r
      cases tree with
      | token k text =>
          exact Bool.false_ne_true (hunlisted.symm.trans ((BEq.comm (b := k)).trans hfound))
      | node k cs => cases htoken
    have hfound : enum.openBrace? = some brace := by
      rw [openBrace?, token?, Site.tokens, hchildren, List.filter_append, List.find?_append, hnone,
        Option.none_or, List.filter_cons_of_pos hbrace.1, List.find?_cons_of_pos (by simp [hbrace.2])]
    exact Option.some.inj (hfound.symm.trans hopening)
  refine ⟨⟨before, body ++ closing :: rest, hchildren, fun t ht => ?_, closing, by simp, hclosing.2⟩,
    hbrace⟩
  rcases List.mem_append.1 ht with ht | ht
  · refine isToken_of_listed hbody ht (Bool.eq_false_iff.2 fun hmember => ?_)
    have hmem : t ∈ enum.enumMembers := by
      rw [enumMembers_eq, hchildren]
      exact List.mem_filter.2 ⟨by simp [ht], hmember⟩
    rw [hempty] at hmem
    cases hmem
  · rcases List.mem_cons.1 ht with rfl | ht
    · exact hclosing.1
    · exact hrest t ht

end Parts

/-! ## The layouts -/

/-- Where a splice puts a new member: behind the child `r` of the enumeration, with separators around
it.  `marks` are marked besides the name. -/
structure Placing (t : Tree) (enum : Site) (s : Splice) (name : String) (n : Int) (left : List Site)
    (r : Site) (tail : List Site) (before after : List Tree) (marks : List Annotation) : Prop where
  tailed : Tailed enum left r tail
  spacing : ∀ u ∈ before ++ after, u.isSpacing = true
  splice : t.splice s = .ok (rebuild (.node .enumDeclaration
    ((left.map tree ++ [r.tree]) ++ grown before after (tail.map tree) name n)) enum.above)
  annotations : s.replacement.annotations.map (·.shift s.span.start) =
    ⟨.renameTarget, .ofLength (r.stop + widthAll before) name.utf8ByteSize⟩ :: marks

theorem shift_ofLength (start length n : Nat) :
    (Span.ofLength start length).shift n = .ofLength (n + start) length := by
  simp only [Span.ofLength, Span.shift, Span.mk.injEq]
  omega

section Layouts

variable {origin : Nat} {t : Tree} {enum r : Site} {left tail : List Site} {before after : List Tree}
  {name : String} {n : Int}

/-- An insertion behind a child. -/
theorem placing_insert (h : Tailed enum left r tail) (hroot : Clean (top origin t))
    (henum : enum ∈ (top origin t).subtree) (hkind : enum.kind = .enumDeclaration)
    (hwidth : 0 < r.tree.width) (hspacing : ∀ u ∈ before ++ after, u.isSpacing = true) :
    Placing t enum (.insert r.stop (marked before (newMember name n) after name)) name n left r tail
      before after [] := by
  refine ⟨h, hspacing, ?_, ?_⟩
  · rw [h.splice hroot henum hwidth, hkind]
    rfl
  · exact congrArg (fun span => [(⟨.renameTarget, span⟩ : Annotation)]) (shift_ofLength _ _ _)

/-- An insertion that is to be indented. -/
theorem placing_formatted (h : Tailed enum left r tail) (hroot : Clean (top origin t))
    (henum : enum ∈ (top origin t).subtree) (hkind : enum.kind = .enumDeclaration)
    (hwidth : 0 < r.tree.width) (hspacing : ∀ u ∈ before ++ after, u.isSpacing = true) :
    Placing t enum (.insert r.stop (marked before (newMember name n) after name).formatted) name n left
      r tail before after
      [⟨.formatter, .ofLength r.stop (widthAll (before ++ newMember name n :: after))⟩] := by
  have hplain : Placing t enum (.insert r.stop (marked before (newMember name n) after name)) name n
      left r tail before after [] := placing_insert h hroot henum hkind hwidth hspacing
  refine ⟨h, hspacing, hplain.splice, ?_⟩
  have hspan : (⟨0, (marked before (newMember name n) after name).length⟩ : Span).shift r.stop =
      .ofLength r.stop (widthAll (before ++ newMember name n :: after)) := by
    rw [Span.shift, Span.ofLength, Nat.zero_add, Nat.add_comm]
    rfl
  have hname := hplain.annotations
  simp only [Replacement.formatted, Replacement.annotate, Splice.insert] at hname ⊢
  rw [List.map_append, hname]
  exact congrArg (fun span => [_, (⟨.formatter, span⟩ : Annotation)]) hspan

/-- New trees behind a child in its place. -/
theorem placing_graft (h : Tailed enum left r tail) (henum : enum ∈ (top origin t).subtree)
    (hkind : enum.kind = .enumDeclaration) (hnode : r.isNode = true) (hwidth : 0 < r.tree.width)
    (htop : r.Topmost) (hspacing : ∀ u ∈ before ++ after, u.isSpacing = true) :
    let m := marked before (newMember name n) after name
    Placing t enum ⟨r.span, some r.kind,
      ⟨r.tree :: m.elements, m.annotations.map (·.shift r.span.length)⟩⟩ name n left r tail before
        after [] := by
  have hchild : r ∈ enum.children := by
    rw [h.split]
    simp
  have hroot : r ≠ top origin t := by
    rintro rfl
    cases parent?_of_mem_children hchild
  refine ⟨h, hspacing, ?_, ?_⟩
  · rw [splice_graft (mem_subtree_child henum hchild) hnode hwidth htop hroot, graft_behind h.split,
      hkind]
    rfl
  · refine congrArg (fun span => [(⟨.renameTarget, span⟩ : Annotation)]) ?_
    show ((Span.ofLength (widthAll before) name.utf8ByteSize).shift r.span.length).shift r.start = _
    rw [shift_ofLength, shift_ofLength, ← Nat.add_assoc, stop_eq]
    simp only [span, Span.ofLength, Span.length, Nat.add_sub_cancel_left]

end Layouts

@[simp] theorem isSpacing_comma : comma.isSpacing = true := rfl

@[simp] theorem isSpacing_whitespace (s : String) : (Snippet.whitespace s).isSpacing = true := rfl

@[simp] theorem isSpacing_newline (s : String) : (Snippet.newline s).isSpacing = true := rfl

theorem isSpacing_indentation (indent : String) : ∀ u ∈ indentation indent, u.isSpacing = true := by
  intro u hu
  unfold indentation at hu
  split at hu
  · cases hu
  · obtain rfl := List.mem_singleton.1 hu
    exact isSpacing_whitespace indent

section Editor

variable {version : Nat} {text : String} {enum last : Site}
  (hclean : (Document.ofText version text).errors = [])
  (henum : enum ∈ (Document.ofText version text).root.subtree)
  (hkind : enum.kind = .enumDeclaration)

include hclean henum hkind

/-- **Behind the last member.** -/
theorem append_placing (hlast : enum.enumMembers.getLast? = some last) {name : String} {n : Int}
    {e : Editor} (h : append ⟨.ofText version text, []⟩ last (newMember name n) name = .ok e) :
    ∃ s left r tail before after, e.splices = [s] ∧
      Placing (Document.ofText version text).tree enum s name n left r tail before after [] := by
  have hnode : enum.isNode = true := by
    have hmem := List.mem_of_getLast? hlast
    rw [enumMembers_eq] at hmem
    obtain ⟨tree, start, above, origin⟩ := enum
    cases tree with
    | token k spelling => cases hmem
    | node k cs => rfl
  have hroot := Document.clean_root hclean
  obtain ⟨left, tail, htailed⟩ := exists_tailed_last hclean henum hkind hnode hlast
  obtain ⟨hlastMem, hlastKind, hparent⟩ :=
    mem_of_enumMembers (List.mem_filter.2 ⟨henum, hnode⟩) (List.mem_of_getLast? hlast)
  have hnamed := Document.named_constantNode hclean hlastMem (by simp [Model.isConstantNode, hlastKind])
  have htop : last.Topmost := by
    intro p hp hspan hsame
    have hpMem := ancestors_mem (List.mem_filter.1 hlastMem).1 (List.mem_cons_of_mem _ hp)
    have hpNamed := Document.named_constantNode hclean
      (List.mem_filter.2 ⟨hpMem, isNode_of_mem_properAncestors hp⟩)
      (by simp [Model.isConstantNode, hsame, hlastKind])
    have hlt := hpNamed.width_lt hnamed.1 hp
    have hstart := congrArg Span.start hspan
    have hstop := congrArg Span.stop hspan
    simp only [span, Span.ofLength] at hstart hstop
    omega
  obtain ⟨first, q, hframed⟩ := hroot.framed last hlastMem (by
    rintro rfl
    cases hparent)
  have hgraft (before after : List Tree) (hspacing : ∀ u ∈ before ++ after, u.isSpacing = true)
      (h : Editor.insertAfter ⟨.ofText version text, []⟩ last
        (marked before (newMember name n) after name) = .ok e) :
      ∃ s left r tail before after, e.splices = [s] ∧
        Placing (Document.ofText version text).tree enum s name n left r tail before after [] := by
    obtain rfl := Editor.insertAfter_ok h
    exact ⟨_, left, last, tail, before, after, rfl,
      placing_graft htailed henum hkind hnamed.1 hnamed.width_pos htop hspacing⟩
  have hinsert {left tail : List Site} {r : Site} (hr : Tailed enum left r tail)
      (hmem : r ∈ (Document.ofText version text).root.subtokens) (hend : r.kind ≠ .endOfFile)
      (before after : List Tree) (hspacing : ∀ u ∈ before ++ after, u.isSpacing = true)
      (h : Editor.insertAt ⟨.ofText version text, []⟩ r.stop
        (marked before (newMember name n) after name) = .ok e) :
      ∃ s left r tail before after, e.splices = [s] ∧
        Placing (Document.ofText version text).tree enum s name n left r tail before after [] := by
    obtain rfl := Editor.insertAt_ok h
    exact ⟨_, left, r, tail, before, after, rfl,
      placing_insert hr hroot henum hkind (hroot.width_pos hmem hend) hspacing⟩
  -- a comma behind the member, if it is what follows
  have hcomma {separator : Site} (hseparator :
      ((last.lastSignificant?.bind nextSignificant?).filter (·.kind == .comma)) = some separator) :
      ∃ left rest, Tailed enum left separator rest ∧ separator ∈ tail ∧ separator.kind = .comma ∧
        separator.isSignificant = true := by
    obtain ⟨run, x, rest, rfl, hrun, hx, hnext⟩ := htailed.next hroot henum hframed.ends
    obtain ⟨hfound, hcomma⟩ := Option.filter_eq_some_iff.1 hseparator
    rw [hframed.lastSignificant, Option.bind_some, hnext] at hfound
    obtain rfl := Option.some.inj hfound
    have hxKind : x.kind = .comma := beq_iff_eq.1 hcomma
    have hopen : ∀ u ∈ run, u.kind ≠ .rBrace := fun u hu => kind_ne_of_isTrivia rfl (hrun u hu)
    exact ⟨_, rest, htailed.later hopen (by rw [hxKind]; decide), by simp, hxKind, hx⟩
  have hbehind {separator : Site} (hseparator :
      ((last.lastSignificant?.bind nextSignificant?).filter (·.kind == .comma)) = some separator)
      (h : behindComma ⟨.ofText version text, []⟩ separator (newMember name n) name = .ok e) :
      ∃ s left r tail before after, e.splices = [s] ∧
        Placing (Document.ofText version text).tree enum s name n left r tail before after [] := by
    obtain ⟨left', rest, hrest, hmem, hcommaKind, -⟩ := hcomma hseparator
    exact hinsert hrest (htailed.mem_subtokens henum hmem) (by rw [hcommaKind]; decide)
      [Snippet.whitespace " "] [comma] (by simp) h
  unfold append at h
  dsimp only at h
  split at h
  · next indent separator _ hseparator =>
    split at h
    · exact hbehind hseparator h
    · next newline hnewline =>
      -- on the next line, behind what trails the comma
      obtain ⟨left', rest, hrest, hmem, hcommaKind, hsignificant⟩ := hcomma hseparator
      have hsub := htailed.mem_subtokens henum hmem
      have hsome : separator.trailingTrivia ≠ [] := List.ne_nil_of_mem (List.mem_of_find?_eq_some hnewline)
      obtain ⟨left'', tail'', htailed'', hmem'', htrivia, hstop⟩ :=
        hrest.behind_trailing hroot henum (List.mem_filter.1 hsub).2 hsignificant
          (List.getLast?_eq_some_getLast hsome)
      rw [hstop] at h
      exact hinsert htailed'' (hrest.mem_subtokens henum hmem'') (kind_ne_of_isTrivia rfl htrivia)
        (indentation indent) [comma, Snippet.newline newline.text]
        (List.forall_mem_append.2 ⟨isSpacing_indentation indent, by simp⟩) h
  · next indent _ _ =>
    exact hgraft ([comma, Snippet.newline (lineBreakNear last)] ++ indentation indent) []
      (by simpa using isSpacing_indentation indent) h
  · next separator _ hseparator => exact hbehind hseparator h
  · exact hgraft [comma, Snippet.whitespace " "] [] (by simp) h

/-- **Between the braces of an enumeration without members.**  Only a member on a line of its own is
to be indented. -/
theorem insertFirst_placing {opening closing : Site} (hempty : enum.enumMembers = [])
    (hopening : enum.openBrace? = some opening) {name : String} {n : Int} {e : Editor}
    (h : insertFirst ⟨.ofText version text, []⟩ opening closing (newMember name n) name = .ok e) :
    ∃ s left r tail before after marks, e.splices = [s] ∧
      Placing (Document.ofText version text).tree enum s name n left r tail before after marks ∧
      (marks = [] ∨ before = [] ∧ (∃ newline, after = [Snippet.newline newline]) ∧
        r.isToken = true ∧ r.kind = .newline ∧ 0 < r.tree.width ∧
        marks = [⟨.formatter, .ofLength r.stop (widthAll (newMember name n :: after))⟩]) := by
  have hnode : enum.isNode = true := by
    have hmem := (List.mem_filter.1 (List.mem_of_find?_eq_some hopening)).1
    obtain ⟨tree, start, above, origin⟩ := enum
    cases tree with
    | token k spelling => cases hmem
    | node k cs => rfl
  have hroot := Document.clean_root hclean
  obtain ⟨⟨left, tail, htailed⟩, htoken, hbrace⟩ :=
    exists_tailed_opening hclean henum hkind hnode hempty hopening
  have hsub : opening ∈ (Document.ofText version text).root.subtokens := by
    refine List.mem_filter.2 ⟨mem_subtree_child henum ?_, htoken⟩
    rw [htailed.split]
    simp
  have hsignificant : opening.isSignificant = true := by
    obtain ⟨k, spelling, htree, htrivia⟩ := isTrivia_of_isToken htoken
    rw [Site.kind, htree] at hbrace
    rw [isSignificant, htrivia, show k = .lBrace from hbrace]
    rfl
  unfold insertFirst at h
  split at h
  · next newline _ hnewline _ =>
    obtain rfl := Editor.insertAt_ok h
    obtain ⟨left', tail', htailed', hmem, htrivia, hstop⟩ :=
      htailed.behind_trailing hroot henum htoken hsignificant (getLast?_trailingTrivia hnewline)
    have hsub' := htailed.mem_subtokens henum hmem
    have hwidth := hroot.width_pos hsub' (kind_ne_of_isTrivia rfl htrivia)
    have hbreak := List.find?_some hnewline
    rw [hstop]
    exact ⟨_, left', newline, tail', [], [Snippet.newline newline.text], _, rfl,
      placing_formatted htailed' hroot henum hkind hwidth (by simp), Or.inr ⟨rfl, ⟨_, rfl⟩,
        (List.mem_filter.1 hsub').2, beq_iff_eq.1 hbreak, hwidth, rfl⟩⟩
  · obtain rfl := Editor.insertAt_ok h
    refine ⟨_, left, opening, tail, [Snippet.whitespace " "], _, [], rfl,
      placing_insert htailed hroot henum hkind (hroot.width_pos hsub (by rw [hbrace]; decide)) ?_,
      Or.inl rfl⟩
    split <;> simp

end Editor

end CodeMend.Rules.NewEnumMember

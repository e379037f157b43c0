import CodeMend.Proofs.Rules.MemberPlacing
import CodeMend.Proofs.Trivia.Tight
import CodeMend.Rules.Builtin

/-!
# A new member for an enumeration: what the refactoring does

An action on offer is one splice, which puts the new member behind a child of the enumeration
(`exists_of_offered`).  Only a member on a line of its own is indented afterwards, by white space in
front of it (`indent_newMember`).  Either way the enumeration has grown by one member
(`exists_growth`), and what is known of such a growth holds of the result (`member_added`).
-/

namespace CodeMend.Rules.NewEnumMember

open Site Tree

theorem tokens_newMember (name : String) (n : Int) : ∃ rest, (newMember name n).tokens =
    (.ident, name) :: rest ∧ ∀ x ∈ rest, x.1 ≠ .newline ∧ x.1.isComment = false := by
  refine ⟨Lexer.blank :: (.eq, "=") :: Lexer.blank :: (numeral n).tokens,
    Snippet.tokens_memberTree name _, ?_⟩
  cases n with
  | ofNat n => simp [Lexer.blank, numeral, Tree.tokens, tokensAll, Kind.isComment]
  | negSucc n => simp [Lexer.blank, numeral, Tree.tokens, tokensAll, Kind.isComment]

theorem width_newMember (name : String) (n : Int) : ∃ more,
    (newMember name n).width = name.utf8ByteSize + more := by
  obtain ⟨rest, htokens, -⟩ := tokens_newMember name n
  exact ⟨widthOf rest, by rw [Tree.width_eq.1, htokens, widthOf_cons]⟩

/-- A new member on a line of its own is the only one that is indented. -/
theorem indent_newMember {version : Nat} {text : String} {d : Document} {enum r : Site}
    {left tail : List Site} {name newline : String} {n : Int} (htailed : Tailed enum left r tail)
    (hbreak : r.kind = .newline) (htoken : r.isToken = true) (hwidth : 0 < r.tree.width)
    (G : MemberGrowth version text d enum (left.map tree ++ [r.tree]) [] [Snippet.newline newline]
      (tail.map tree) name n) (f : FormatterSettings) :
    let spans := [Span.ofLength r.stop (widthAll [newMember name n, Snippet.newline newline])]
    Indent.splices f spans [] (Line.all d.root) = [] ∨ ∃ indent,
      Indent.splices f spans [] (Line.all d.root) =
        [.insert r.stop ⟨[Snippet.whitespace indent], []⟩] := by
  intro spans
  obtain ⟨front, back, htokens, hstart⟩ := tokens_split.1 _ _ _ _ G.place G.place_rel.mem'
  obtain ⟨rest, hmember, hrest⟩ := tokens_newMember name n
  have hstored : d.root.subtokens.map stored = (front ++ tokensAll (left.map tree)) ++
      (r.stored :: ((.ident, name) :: (rest ++
        ((.newline, newline) :: (tokensAll (tail.map tree) ++ back))))) := by
    have hrow : G.place.tree.tokens = tokensAll (left.map tree) ++ (r.tree.tokens ++
        ((newMember name n).tokens ++ (.newline, newline) :: tokensAll (tail.map tree))) := by
      show tokensAll ((left.map tree ++ [r.tree]) ++ grown [] _ _ name n) = _
      simp [grown, tokensAll_append, tokensAll, Snippet.newline, Tree.tokens]
    rw [map_stored_subtokens, show d.root.tree.tokens = _ from htokens, hrow, hmember,
      tokens_of_isToken htoken]
    simp
  -- the sites of the new line, by the tokens that stand there
  obtain ⟨xs, others, hsplit, hxs, hothers⟩ := List.map_eq_append_iff.1 hstored
  obtain ⟨previous, others, rfl, hprevious, hothers⟩ := List.map_eq_cons_iff.1 hothers
  obtain ⟨first, others, rfl, hfirst, hothers⟩ := List.map_eq_cons_iff.1 hothers
  obtain ⟨line, others, rfl, hline, hothers⟩ := List.map_eq_append_iff.1 hothers
  obtain ⟨last, others, rfl, hlast, -⟩ := List.map_eq_cons_iff.1 hothers
  have hsplit' : (top d.origin d.tree).subtokens =
      (xs ++ [previous]) ++ ((first :: line ++ [last]) ++ others) := by
    rw [show (top d.origin d.tree).subtokens = _ from hsplit]
    simp
  have htokens' {u : Site} (hu : u ∈ (xs ++ [previous]) ++ ((first :: line ++ [last]) ++ others)) :
      u.isToken = true := (List.mem_filter.1 (hsplit' ▸ hu)).2
  -- the new line is just what was spliced in
  have hstop : widthOfSites (xs ++ [previous]) = r.stop := by
    have hplace : enum.start = 0 + widthOf front := hstart
    rw [← widthOf_stored fun u hu => htokens' (List.mem_append_left _ hu), stop_of_split htailed.split, Tree.width_eq.2, tokensAll_append,
      hplace, List.map_append, hxs, List.map_singleton, hprevious]
    simp [tokensAll, tokens_of_isToken htoken]
  have hwhole : widthOfSites (first :: line ++ [last]) =
      widthAll [newMember name n, Snippet.newline newline] := by
    have hmap : (first :: line ++ [last]).map stored =
        (newMember name n).tokens ++ [(.newline, newline)] := by
      rw [List.map_append, List.map_cons, hfirst, hline, List.map_singleton, hlast, hmember]
    rw [← widthOf_stored fun u hu => htokens' (List.mem_append_right _ (List.mem_append_left _ hu)),
      hmap, widthOf_append, ← Tree.width_eq.1]
    simp [widthAll, Snippet.newline, Tree.width]
  have hprevWidth : 0 < previous.tree.width := by
    rw [width_of_isToken (htokens' (by simp)), show previous.text = r.text from
      congrArg Prod.snd hprevious, ← width_of_isToken htoken]
    exact hwidth
  have hinner : ∀ u ∈ line, u.endsLine = false := fun u hu =>
    beq_eq_false_iff_ne.2 (hrest u.stored (hline ▸ List.mem_map_of_mem hu)).1
  have hindent := @Indent.splices_newLine f [] _ _ _ _ _ _ _ _ hsplit'
    ((congrArg Prod.fst hprevious).trans hbreak) hprevWidth (congrArg Prod.fst hfirst) hinner
    (congrArg Prod.fst hlast)
  rwa [hstop, hwhole] at hindent

/-- What follows an insertion moves by its length. -/
theorem mapSpan_insert {version offset start length : Nat} {new : Replacement} (hstart : offset ≤ start)
    (hbound : start + new.length + length ≤ Patch.maxOffset) :
    (⟨version, [.insert offset new]⟩ : Patch).mapSpan (.ofLength start length) =
      .ofLength (start + new.length) length := by
  have hoffset {n : Nat} (hn : offset ≤ n) (hfits : n + new.length ≤ Patch.maxOffset) :
      (⟨version, [.insert offset new]⟩ : Patch).mapOffset n = n + new.length := by
    have hpoint : (Splice.insert offset new).span.stop ≤ n := hn
    have hgrowth : (Splice.insert offset new).growth = new.length := by
      simp [Splice.growth, Splice.insert, Span.point, Span.length]
    rw [Patch.mapOffset]
    simp only [List.filter_cons, hpoint, decide_true, if_true, List.filter_nil,
      Patch.totalGrowth_cons, Patch.totalGrowth_nil, hgrowth]
    omega
  rw [Patch.mapSpan, Span.ofLength, Span.ofLength]
  dsimp only
  rw [hoffset hstart (by omega), hoffset (by omega) (by omega), Span.mk.injEq]
  omega

section Mended

variable {version : Nat} {text : String} {enum : Site}
  (hclean : (Document.ofText version text).errors = [])
  (henum : enum ∈ (Document.ofText version text).root.subtree)
  (hkind : enum.kind = .enumDeclaration)
  {s : Splice} {name : String} {n : Int} {left : List Site} {r : Site} {tail : List Site}
  {before after : List Tree} {marks : List Annotation}
  (hplacing : Placing (Document.ofText version text).tree enum s name n left r tail before after marks)
  (hname : name ≠ "")

include hclean henum hkind hplacing hname

/-- Where a new member was placed, the enumeration has grown. -/
theorem growth_of_placing {d' : Document} {before' : List Tree}
    (hspacing : ∀ u ∈ before' ++ after, u.isSpacing = true)
    (hresult : d'.tree = rebuild (.node .enumDeclaration
      ((left.map tree ++ [r.tree]) ++ grown before' after (tail.map tree) name n)) enum.above) :
    MemberGrowth version text d' enum (left.map tree ++ [r.tree]) before' after (tail.map tree) name
      n := by
  refine ⟨hclean, henum, ?_, by simp, fun t ht => ?_, hspacing, hname, hresult⟩
  · rw [(above_of_split hplacing.tailed.split).1, hkind, List.append_cons]
  · obtain ⟨u, hu, rfl⟩ := List.mem_map.1 ht
    exact hplacing.tailed.tokens u hu

/-- **What mending makes of the splice**: the new member stands in its place, perhaps indented, and its
name is what is to be renamed. -/
theorem exists_growth (hmarks : marks = [] ∨ before = [] ∧ (∃ newline, after = [Snippet.newline newline]) ∧
      r.isToken = true ∧ r.kind = .newline ∧ 0 < r.tree.width ∧
      marks = [⟨.formatter, .ofLength r.stop (widthAll (newMember name n :: after))⟩])
    {version' stamp : Nat} {title : String} {options : Options} {cancel : Cancellation}
    {applied : Applied} (h : (⟨version', [s]⟩ : Patch).mend title (.ofText version text) options cancel
      stamp = .ok applied) :
    ∃ before', MemberGrowth version text applied.document enum (left.map tree ++ [r.tree]) before' after
        (tail.map tree) name n ∧
      (applied.document.length ≤ Patch.maxOffset → applied.renameTarget =
        some (.ofLength (r.stop + widthAll before') name.utf8ByteSize)) := by
  obtain ⟨o, indent, ho, hindent, hdone, -⟩ := Patch.mend_ok h
  obtain ⟨-, hsplice, hannotations⟩ := Patch.apply_single ho
  have htree := Except.ok.inj (hsplice.symm.trans hplacing.splice)
  rw [hplacing.annotations] at hannotations
  have hspans : o.formatterSpans = (marks.filter (·.mark == .formatter)).map Annotation.span := by
    rw [Outcome.formatterSpans, Outcome.spansOf, hannotations]
    rfl
  have htarget : o.renameTarget? =
      some (.ofLength (r.stop + widthAll before) name.utf8ByteSize) := by
    rw [Outcome.renameTarget?, Outcome.spansOf, hannotations]
    rfl
  have hunchanged (hsplices : indent.splices = []) :
      MemberGrowth version text applied.document enum (left.map tree ++ [r.tree]) before after
          (tail.map tree) name n ∧
        applied.renameTarget = some (.ofLength (r.stop + widthAll before) name.utf8ByteSize) := by
    rcases hdone with ⟨-, hdone, heq⟩ | ⟨hne, -⟩
    · exact ⟨growth_of_placing hclean henum hkind hplacing hname hplacing.spacing (hdone.trans htree),
        heq.trans htarget⟩
    · exact absurd hsplices hne
  rcases hmarks with rfl | ⟨rfl, ⟨newline, rfl⟩, htoken, hbreak, hwidth, rfl⟩
  · have hnone : indent.splices = [] := by
      rw [hspans] at hindent
      obtain ⟨-, rfl⟩ := Indent.patch_ok hindent
      exact Indent.splices_of_no_spans _ _ _
    obtain ⟨G, heq⟩ := hunchanged hnone
    exact ⟨before, G, fun _ => heq⟩
  · have G : MemberGrowth version text o.document enum (left.map tree ++ [r.tree]) []
        [Snippet.newline newline] (tail.map tree) name n :=
      growth_of_placing hclean henum hkind hplacing hname hplacing.spacing htree
    have hsplices : indent.splices = Indent.splices options.config.formatterSettings
        [.ofLength r.stop (widthAll [newMember name n, Snippet.newline newline])] []
        (Line.all o.document.root) := by
      rw [hspans] at hindent
      obtain ⟨-, rfl⟩ := Indent.patch_ok hindent
      rfl
    rcases indent_newMember hplacing.tailed hbreak htoken hwidth G options.config.formatterSettings with
      hnone | ⟨space, hsome⟩
    · obtain ⟨G, heq⟩ := hunchanged (hsplices.trans hnone)
      exact ⟨[], G, fun _ => heq⟩
    · -- white space comes before the member
      rcases hdone with ⟨hnil, -⟩ | ⟨-, o', ho', htree', heq⟩
      · rw [hsplices, hsome] at hnil
        cases hnil
      obtain ⟨version'', splices⟩ := indent
      obtain rfl : splices = _ := hsplices.trans hsome
      have hname' : 0 < name.utf8ByteSize :=
        Nat.pos_of_ne_zero fun hzero => hname (String.utf8ByteSize_eq_zero_iff.1 hzero)
      have hbehind : 0 < widthAll (grown [] [Snippet.newline newline] (tail.map tree) name n) := by
        obtain ⟨more, hwidth⟩ := width_newMember name n
        rw [widthAll_append, List.nil_append, widthAll, hwidth]
        omega
      have hborder := splice_border G.place_rel.mem' (show G.place.tree = _ from rfl)
        (by simpa using hwidth) (by simp) hbehind ⟨[Snippet.whitespace space], []⟩
      have hstop : r.stop = G.place.start + widthAll (left.map tree ++ [r.tree]) :=
        show r.stop = enum.start + _ from stop_of_split hplacing.tailed.split
      obtain ⟨-, hsplice', -⟩ := Patch.apply_single ho'
      rw [hstop] at hsplice'
      have htree'' := Except.ok.inj (hsplice'.symm.trans hborder)
      have G' : MemberGrowth version text applied.document enum (left.map tree ++ [r.tree])
          [Snippet.whitespace space] [Snippet.newline newline] (tail.map tree) name n :=
        growth_of_placing hclean henum hkind hplacing hname (by simp) (htree'.trans htree'')
      refine ⟨_, G', fun hfits => ?_⟩
      -- the name ends inside the text, so its offsets are not cut off
      obtain ⟨members, new, -, hchild, hnew, hnewStart, -⟩ := G'.exists_members
      have hwithin := (subtree_within.1 _ _ _ _ new (mem_subtree_child G'.place_rel.mem' hchild)).2
      obtain ⟨more, hmore⟩ := width_newMember name n
      have hplace : r.stop = enum.start + widthAll (left.map tree ++ [r.tree]) := hstop
      rw [stop_eq, hnew, hmore, hnewStart, widthAll_append] at hwithin
      have hlength : r.stop + widthAll [Snippet.whitespace space] + name.utf8ByteSize ≤
          Patch.maxOffset := by
        have hfits : applied.document.tree.width ≤ Patch.maxOffset := hfits
        have hroot : applied.document.root.start + applied.document.root.tree.width =
          applied.document.tree.width := Nat.zero_add _
        omega
      rw [heq, htarget, Option.map_some, widthAll, Nat.add_zero, mapSpan_insert (Nat.le_refl _) hlength]
      rfl

end Mended

/-! ## What is offered -/

theorem mem_of_enumAt? {c : Context} {span : Span} {enum : Site} (h : enumAt? c span = some enum) :
    enum ∈ c.root.subtree ∧ enum.kind = .enumDeclaration := by
  obtain ⟨n, hn, hfind⟩ := Option.bind_eq_some_iff.1 h
  have hkind := List.find?_some hfind
  exact ⟨ancestors_mem (mem_of_findNode? hn) (List.mem_of_find?_eq_some hfind), beq_iff_eq.1 hkind⟩

theorem of_drop_eq_some {α : Type} {x : Except Failure α} {a : α} (h : Failure.drop x = some a) :
    x = .ok a := by
  cases x with
  | error f => cases h
  | ok b => exact congrArg _ (Option.some.inj h)

/-- An action on offer adds the new member of the enumeration around the span. -/
theorem exists_of_offered {d : Document} {options : Options} {span : Span} {action : CodeAction}
    (h : action ∈ builtin.refactoringsAt d span options) :
    let c := Context.ofDocument d options
    ∃ enum member name e, enumAt? c span = some enum ∧ newMember? c.model enum = some (member, name) ∧
      action.patch = e.patch ∧
      ((∃ last, enum.enumMembers.getLast? = some last ∧ append ⟨d, []⟩ last member name = .ok e) ∨
        ∃ opening closing, enum.enumMembers = [] ∧ enum.openBrace? = some opening ∧
          insertFirst ⟨d, []⟩ opening closing member name = .ok e) := by
  intro c
  obtain ⟨actions, hactions, haction⟩ : ∃ actions, refactor c span = .ok actions ∧ action ∈ actions := by
    obtain ⟨f, hf, hmem⟩ := List.mem_flatMap.1 h
    obtain rfl := List.mem_singleton.1 hf
    obtain ⟨actions, hactions, hmem⟩ := Registry.mem_getD_nil hmem
    exact ⟨actions, Offer.of_settle_ofEdits (of_drop_eq_some hactions) (List.ne_nil_of_mem hmem), hmem⟩
  unfold refactor at hactions
  dsimp only at hactions
  split at hactions
  · obtain rfl := Except.ok.inj hactions
    cases haction
  · next enum member name hfound =>
    obtain ⟨enum', henum, hfound⟩ := Option.bind_eq_some_iff.1 hfound
    obtain ⟨found, hnew, hfound⟩ := Option.bind_eq_some_iff.1 hfound
    obtain ⟨rfl, rfl⟩ := Prod.mk.inj (Option.some.inj hfound)
    split at hactions
    · next last hlast =>
      obtain ⟨e, happend, rfl⟩ := map_eq_ok hactions
      obtain rfl := List.mem_singleton.1 haction
      exact ⟨enum', member, name, e, henum, hnew, rfl, Or.inl ⟨last, hlast, happend⟩⟩
    · next hnone =>
      split at hactions
      · next opening closing hopening _ =>
        obtain ⟨e, hinsert, rfl⟩ := map_eq_ok hactions
        obtain rfl := List.mem_singleton.1 haction
        exact ⟨enum', member, name, e, henum, hnew, rfl,
          Or.inr ⟨opening, closing, List.getLast?_eq_none_iff.1 hnone, hopening, hinsert⟩⟩
      · obtain rfl := Except.ok.inj hactions
        cases haction

/-! ## The result -/

/-- The comments of a tree, in the order of the text. -/
def comments (t : Tree) : Stored := t.tokens.filter (·.1.isComment)

/-- The enumeration `enum'` of the document `d'` is `enum` of the document `d` with one more member. -/
structure Added (d d' : Document) (catalog : Catalog) (enum enum' : Site) (name : String)
    (value : Int64) : Prop where
  place : enum' ∈ d'.root.subnodes ∧ enum'.kind = .enumDeclaration ∧ enum'.path = enum.path
  /-- The members that were there keep their order, their text and their values, and the new one comes
  behind them. -/
  members : ∃ members new values, enum'.enumMembers = members ++ [new] ∧
    members.map tree = enum.enumMembers.map tree ∧
    enum.enumMembers.map (Model.ofDocument d catalog).constant? = constants values ∧
    enum'.enumMembers.map (Model.ofDocument d' catalog).constant? = constants (values ++ [value]) ∧
    new.identText? = some name ∧ (∀ s ∈ members, s.identText? ≠ some name) ∧
    Following values (DuplicateValue.isFlags enum) value
  comments : comments d'.tree = comments d.tree

/-- Comments stay if no comment of the part that changes gets lost. -/
theorem comments_rebuild {t t' : Tree} (h : comments t = comments t') (fs : List Frame) :
    comments (rebuild t fs) = comments (rebuild t' fs) := by
  induction fs generalizing t t' with
  | nil => exact h
  | cons f fs ih =>
      refine ih ?_
      simp only [comments, Frame.close, Tree.tokens, tokensAll_append, tokensAll, List.filter_append] at h ⊢
      rw [h]

/-- A new member brings no comment and takes none away. -/
theorem comments_grown {version : Nat} {text : String} {d' : Document} {enum : Site}
    {front before after back : List Tree} {name : String} {n : Int}
    (G : MemberGrowth version text d' enum front before after back name n) :
    comments d'.tree = comments (Document.ofText version text).tree := by
  have hspacing (ts : List Tree) (h : ∀ t ∈ ts, t ∈ before ++ after) :
      (tokensAll ts).filter (·.1.isComment) = [] := by
    refine List.filter_eq_nil_iff.2 fun x hx => ?_
    induction ts with
    | nil => cases hx
    | cons t ts ih =>
        obtain ⟨ht, hts⟩ := List.forall_mem_cons.1 h
        rcases List.mem_append.1 hx with hx | hx
        · have hkind := Tree.kind_of_isSpacing (G.spacing t ht)
          have htoken := Tree.isToken_of_isSpacing (G.spacing t ht)
          cases t with
          | token k text =>
              obtain rfl := List.mem_singleton.1 hx
              rcases hkind with rfl | rfl | rfl <;> exact Bool.false_ne_true
          | node k cs => cases htoken
        · exact ih hts hx
  obtain ⟨rest, hmember, hrest⟩ := tokens_newMember name n
  have hnew : (newMember name n).tokens.filter (·.1.isComment) = [] := by
    rw [hmember, List.filter_cons_of_neg Bool.false_ne_true]
    exact List.filter_eq_nil_iff.2 fun x hx => by simp [(hrest x hx).2]
  rw [G.result, ← rebuild_eq G.mem, G.tree_eq]
  refine comments_rebuild ?_ enum.above
  simp only [comments, Tree.tokens, tokensAll_append, tokensAll, List.filter_append, hnew,
    hspacing before fun t ht => List.mem_append_left _ ht,
    hspacing after fun t ht => List.mem_append_right _ ht, List.nil_append]

theorem exists_value {new : Site} {name : String} {n : Int} (h : new.tree = newMember name n) :
    ∃ e, new.value? = some e ∧ e.tree = numeral n := by
  obtain ⟨tree, start, above, origin⟩ := new
  obtain rfl : tree = _ := h
  cases n with
  | ofNat n => exact ⟨_, rfl, rfl⟩
  | negSucc n => exact ⟨_, rfl, rfl⟩

/-- The value of the new member is the one that is written behind its name. -/
theorem hasValue_new {m : Model} {new : Site} {name : String} {value : Int64}
    (hvalue : Int64.minValue < value) (hnew : new.tree = newMember name value.toInt) :
    m.HasValue new (.int value) := by
  obtain ⟨e, he, htree⟩ := exists_value hnew
  have hkind : new.kind = .enumMemberDeclaration := congrArg Tree.kind hnew
  exact .of_gives (.member hkind he (DuplicateValue.hasValue_numeral hvalue htree))

/-- **What a growth of the enumeration adds**: the new member with its name and its value, while
the old ones keep theirs. -/
theorem added_of_growth {version : Nat} {text : String} {d' : Document} {catalog : Catalog}
    {enum : Site} {front before after back : List Tree} {value : Int64} {values : List Int64}
    (G : MemberGrowth version text d' enum front before after back
      (freshName (enum.enumMembers.filterMap identText?)) value.toInt)
    (hunused : MemberGrowth.Unused version text (freshName (enum.enumMembers.filterMap identText?)))
    (hvalues : enum.enumMembers.map (Model.ofDocument (.ofText version text) catalog).constant? =
      constants values)
    (hfollowing : Following values (DuplicateValue.isFlags enum) value) :
    Added (.ofText version text) d' catalog enum G.place
      (freshName (enum.enumMembers.filterMap identText?)) value := by
  obtain ⟨members, new, hmembers, hchild, hnew, -, hrel⟩ := G.exists_members
  have hplace : G.place ∈ d'.root.subnodes := List.mem_filter.2 ⟨G.place_rel.mem', rfl⟩
  refine ⟨⟨hplace, rfl, rfl⟩, ⟨members, new, values, hmembers, ?_, hvalues, ?_,
    MemberGrowth.identText_new hnew, fun s hs hname => ?_, hfollowing⟩, comments_grown G⟩
  · exact (map_list_eq_of_matched (fun r r' h => h.2) hrel).symm
  · have hold : enum.enumMembers.map (Model.ofDocument (.ofText version text) catalog).constant? =
        members.map (Model.ofDocument d' catalog).constant? := by
      refine map_list_eq_of_matched (fun r r' h => ?_) (forall₂_mem hrel)
      have hr := h.2.1
      rw [enumMembers_eq] at hr
      exact G.constant_eq catalog hunused h.1.1 (Bool.and_eq_true_iff.1 (List.mem_filter.1 hr).2).1
    have hnewMem : new ∈ d'.root.subnodes := by
      refine List.mem_filter.2 ⟨mem_subtree_child G.place_rel.mem' hchild, ?_⟩
      rw [Site.isNode, hnew]
      rfl
    have hnewValue : (Model.ofDocument d' catalog).constant? new = some (.int value) :=
      (Model.constant_iff (Model.wellPlaced_of_named catalog G.namedConstants) hnewMem).2
        (hasValue_new hfollowing.minValue_lt hnew)
    rw [hmembers, List.map_append, ← hold, hvalues, List.map_singleton, hnewValue, constants, constants,
      List.map_append]
    rfl
  · -- a member of that name would be one of those that the name avoids
    obtain ⟨r, hr, hsame⟩ := exists_of_mem_right hrel hs
    refine (freshName_spec (enum.enumMembers.filterMap identText?)).1
      (List.mem_filterMap.2 ⟨r, hr, ?_⟩)
    rw [identText?_eq, hsame.2, ← identText?_eq]
    exact hname

/-- The name of the new member is where the member starts. -/
theorem name_at_start {version : Nat} {text : String} {d' : Document} {enum : Site}
    {front before after back : List Tree} {name : String} {n : Int}
    (G : MemberGrowth version text d' enum front before after back name n) :
    ∃ left right, d'.text = left ++ name ++ right ∧
      enum.start + widthAll (front ++ before) = left.utf8ByteSize := by
  obtain ⟨-, new, -, hchild, hnew, hstart, -⟩ := G.exists_members
  obtain ⟨left, right, htext, hspan⟩ := text_at_span (mem_subtree_child G.place_rel.mem' hchild)
  obtain ⟨rest, htokens, -⟩ := tokens_newMember name n
  have hname : new.text = name ++ textOf rest := by
    rw [show new.text = textOf new.tree.tokens from rfl, hnew, htokens]
    exact textOf_append [(.ident, name)] rest
  refine ⟨left, textOf rest ++ right, ?_, ?_⟩
  · rw [show d'.text = _ from htext, hname]
    simp only [String.append_assoc]
  · rw [← hstart]
    exact congrArg Span.start hspan

/-- **The refactoring appends one fresh member.**  Where it is on offer and can be applied, the
enumeration has its members as before and behind them a new one, whose value follows theirs; if no name
in the text is that of the new member, all values are as before.  What is to be renamed is its name. -/
theorem member_added {version stamp : Nat} {text : String} {options : Options} {cancel : Cancellation}
    {span : Span} {action : CodeAction} {applied : Applied}
    (hclean : (Document.ofText version text).errors = [])
    (hoffered : action ∈ builtin.refactoringsAt (.ofText version text) span options)
    (hunused : ∀ enum, enumAt? (.ofDocument (.ofText version text) options) span = some enum →
      MemberGrowth.Unused version text (freshName (enum.enumMembers.filterMap identText?)))
    (happlied : action.apply (.ofText version text) options cancel stamp = .ok applied)
    (hfits : applied.document.length ≤ Patch.maxOffset) :
    ∃ enum enum' name value,
      enumAt? (.ofDocument (.ofText version text) options) span = some enum ∧
      Added (.ofText version text) applied.document options.catalog enum enum' name value ∧
      ∃ left right, applied.document.text = left ++ name ++ right ∧
        applied.renameTarget = some (.ofLength left.utf8ByteSize name.utf8ByteSize) := by
  obtain ⟨enum, member, name, e, henum, hnew, hpatch, hlayout⟩ := exists_of_offered hoffered
  obtain ⟨hmem, hkind⟩ := mem_of_enumAt? henum
  obtain ⟨rfl, values, value, hvalues, hfollowing, rfl⟩ := newMember?_spec hnew
  obtain ⟨s, left, r, tail, before, after, marks, hsplices, hplacing, hmarks⟩ :
      ∃ s left r tail before after marks, e.splices = [s] ∧
        Placing (Document.ofText version text).tree enum s
          (freshName (enum.enumMembers.filterMap identText?)) value.toInt left r tail before after
          marks ∧
        (marks = [] ∨ before = [] ∧ (∃ newline, after = [Snippet.newline newline]) ∧
          r.isToken = true ∧ r.kind = .newline ∧ 0 < r.tree.width ∧
          marks = [⟨.formatter, .ofLength r.stop (widthAll (newMember _ value.toInt :: after))⟩]) := by
    rcases hlayout with ⟨last, hlast, happend⟩ | ⟨opening, closing, hempty, hopening, hinsert⟩
    · obtain ⟨s, left, r, tail, before, after, hsplices, hplacing⟩ :=
        append_placing hclean hmem hkind hlast happend
      exact ⟨s, left, r, tail, before, after, [], hsplices, hplacing, Or.inl rfl⟩
    · exact insertFirst_placing hclean hmem hkind hempty hopening hinsert
  have hname : freshName (enum.enumMembers.filterMap identText?) ≠ "" := by
    obtain ⟨-, digits, heq, -⟩ := freshName_spec (enum.enumMembers.filterMap identText?)
    rw [heq]
    intro hempty
    cases (String.ofList_inj.1 (hempty.trans String.ofList_nil.symm) : _ = ([] : List Char))
  have hmend : (⟨e.document.version, [s]⟩ : Patch).mend action.title (.ofText version text) options
      cancel stamp = .ok applied := by
    rw [← hsplices, ← happlied, CodeAction.apply, hpatch]
    rfl
  obtain ⟨before', G, htarget⟩ := exists_growth hclean hmem hkind hplacing hname hmarks hmend
  obtain ⟨front, back, htext, hstart⟩ := name_at_start G
  refine ⟨enum, G.place, _, value, henum, added_of_growth G (hunused enum henum) hvalues hfollowing,
    front, back, htext, ?_⟩
  rw [htarget hfits, stop_of_split hplacing.tailed.split, ← hstart, widthAll_append _ before',
    Nat.add_assoc]

/-- A flag behind two others, of which one is no power of two and has the first name. -/
theorem member_added_flags :
    let d := Document.ofText 1
      "[Flags]\nenum E\n\x7b\n    A = 1,\n    // both\n    EnumMember = 3,\n\x7d\n"
    ∃ action ∈ builtin.refactoringsAt d (.point 15) {}, ∃ applied,
      action.apply d {} {} 2 = .ok applied ∧
      applied.document.text = "[Flags]\nenum E\n\x7b\n    A = 1,\n    // both\n    " ++
        "EnumMember = 3,\n    EnumMember2 = 4,\n\x7d\n" ∧
      ∃ enum enum' name value, Added d applied.document .standard enum enum' name value := by
  intro d
  have hclean : d.errors = [] := by decide +kernel
  have hunused : ((enumAt? (.ofDocument d {}) (.point 15)).all fun enum =>
      d.root.subnodes.all fun s => s.kind != .identifierName ||
        s.identText? != some (freshName (enum.enumMembers.filterMap identText?))) = true := by
    decide +kernel
  have hresult : ((builtin.refactoringsAt d (.point 15) {}).any fun a =>
      (a.apply d {} {} 2).toOption.any fun applied =>
        applied.document.text == "[Flags]\nenum E\n\x7b\n    A = 1,\n    // both\n    " ++
          "EnumMember = 3,\n    EnumMember2 = 4,\n\x7d\n" &&
        decide (applied.document.length ≤ Patch.maxOffset)) = true := by
    decide +kernel
  obtain ⟨action, hoffered, hresult⟩ := List.any_eq_true.1 hresult
  obtain ⟨applied, happlied, hresult⟩ := (Option.any_eq_true _ _).1 hresult
  obtain ⟨htext, hfits⟩ := Bool.and_eq_true_iff.1 hresult
  have happlied : action.apply d {} {} 2 = .ok applied := by
    cases happly : action.apply d {} {} 2 with
    | error f =>
        rw [happly] at happlied
        cases happlied
    | ok a =>
        rw [happly] at happlied
        exact congrArg _ (Option.some.inj happlied)
  refine ⟨action, hoffered, applied, happlied, beq_iff_eq.1 htext, ?_⟩
  obtain ⟨enum, enum', name, value, -, hadded, -⟩ :=
    member_added hclean hoffered (fun enum henum s hs hkind => by
      rw [henum, Option.all_some, List.all_eq_true] at hunused
      simpa [hkind] using hunused s hs) happlied (of_decide_eq_true hfits)
  exact ⟨enum, enum', name, value, hadded⟩

end CodeMend.Rules.NewEnumMember

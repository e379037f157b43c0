import CodeMend.Proofs.Edit.Reindenting
import CodeMend.Proofs.Edit.Removing
import CodeMend.Proofs.Edit.Tracking
import CodeMend.Proofs.Engine.Runs

/-!
# Names through indentation

An action marks the identifier to rename, and then lines get their indentation.  A line gets its white
space between the break before it and its first word (`Indent.exists_of_mem_splices`), so no word is
touched (`Indent.spares_of_mem_splices`), and the mark keeps its word
(`CodeAction.renameTarget_of_apply`).

The one way to lose it is a line break without text right behind the word: white space put behind the
break then stands right behind the word.
-/

namespace CodeMend

open Tree

/-! ## Lines among the tokens -/

/-- Before a line there is nothing, or another line with its end. -/
theorem Lines.exists_of_mem {α : Type} {ends : α → Bool} {ls : List (List α)} (h : Lines ends ls)
    {l : List α} (hl : l ∈ ls) : ∃ front back, ls.flatten = front ++ (l ++ back) ∧
      (front = [] ∨ ∃ init last, front = init ++ [last] ∧ ends last = true) := by
  induction h with
  | nil => cases hl
  | last ne inner =>
      obtain rfl := List.mem_singleton.1 hl
      exact ⟨[], [], by simp, Or.inl rfl⟩
  | @cons inner a ls hinner stop rest ih =>
      rcases List.mem_cons.1 hl with rfl | hl
      · exact ⟨[], ls.flatten, by simp, Or.inl rfl⟩
      · obtain ⟨front, back, hsplit, hfront⟩ := ih hl
        refine ⟨(inner ++ [a]) ++ front, back, by simp [hsplit], Or.inr ?_⟩
        rcases hfront with rfl | ⟨init, last, rfl, hlast⟩
        · exact ⟨inner, a, by simp, stop⟩
        · exact ⟨inner ++ [a] ++ init, last, by simp, hlast⟩

namespace Indent

/-- The splices of the formatter are those of lines. -/
theorem exists_of_mem_splices {f : FormatterSettings} {spans : List Span} {moves : Moves}
    {ls : List Line} {s : Splice} (h : s ∈ splices f spans moves ls) :
    ∃ l ∈ ls, ∃ text, splice? l text = some s := by
  induction ls generalizing moves with
  | nil => cases h
  | cons l ls ih =>
      rw [splices_cons] at h
      rcases List.mem_append.1 h with h | h
      · exact ⟨l, List.mem_cons_self, _, Option.mem_toList.1 h⟩
      · obtain ⟨l', hl', htext⟩ := ih h
        exact ⟨l', List.mem_cons_of_mem l hl', htext⟩

/-- The splice of a line takes its white space, or stands where the white space would be. -/
theorem span_of_splice? {l : Line} {text : String} {s : Splice} (h : splice? l text = some s) :
    (∃ w, l.indent = some w ∧ s.span = w.span) ∨ s.span = .point l.first.start := by
  unfold splice? at h
  split at h
  · cases h
  · cases hindent : l.indent with
    | none =>
        rw [hindent] at h
        obtain rfl := Option.some.inj h
        exact Or.inr rfl
    | some w =>
        rw [hindent] at h
        dsimp only at h
        split at h <;>
        · obtain rfl := Option.some.inj h
          exact Or.inl ⟨w, rfl, rfl⟩

/-- **The splice of a line stands before its first word**, behind the end of the line before. -/
theorem bounds_of_mem_splices {f : FormatterSettings} {spans : List Span} {moves : Moves} {root : Site}
    (hspread : root.subtokens.Pairwise (fun a b => a.stop ≤ b.start)) {s : Splice}
    (h : s ∈ splices f spans moves (Line.all root)) :
    s.span.start ≤ s.span.stop ∧ ∃ front back, root.subtokens = front ++ back ∧
      (front = [] ∨ ∃ init last, front = init ++ [last] ∧ last.endsLine = true) ∧
      (∀ a ∈ front, a.stop ≤ s.span.start) ∧
      ∀ a ∈ back, a.kind = .whitespace ∨ s.span.stop ≤ a.start := by
  obtain ⟨line, hline, text, hs⟩ := exists_of_mem_splices h
  rw [Line.all_eq] at hline
  obtain ⟨l, hl, hof⟩ := List.mem_filterMap.1 hline
  obtain ⟨rest, rfl, hindent, -, -⟩ := Line.of?_eq_some hof
  obtain ⟨front, others, hsplit, hfront⟩ := (lines_linesOf _).exists_of_mem hl
  rw [flatten_linesOf, List.append_assoc, List.cons_append] at hsplit
  rw [hsplit] at hspread
  obtain ⟨-, hback, hacross⟩ := List.pairwise_append.1 hspread
  obtain ⟨-, hfirst, hbefore⟩ := List.pairwise_append.1 hback
  have hfirst := (List.pairwise_cons.1 hfirst).1
  have hspan : s.span.start ≤ s.span.stop ∧ s.span.stop ≤ line.first.start ∧
      ∃ b ∈ line.indent.toList ++ line.first :: (rest ++ others), s.span.start = b.start := by
    rcases span_of_splice? hs with ⟨w, hw, hspan⟩ | hspan
    · have hmem : w ∈ line.indent.toList := Option.mem_toList.2 hw
      rw [hspan]
      exact ⟨w.start_le_stop, hbefore w hmem _ List.mem_cons_self, w,
        List.mem_append_left _ hmem, rfl⟩
    · rw [hspan]
      exact ⟨Nat.le_refl _, Nat.le_refl _, line.first, by simp, rfl⟩
  obtain ⟨hordered, hstop, b, hb, hstart⟩ := hspan
  refine ⟨hordered, front, _, hsplit, hfront, fun a ha => hstart ▸ hacross a ha b hb, fun a ha => ?_⟩
  rcases List.mem_append.1 ha with ha | ha
  · exact Or.inl (hindent a (Option.mem_toList.1 ha))
  · refine Or.inr (Nat.le_trans hstop ?_)
    rcases List.mem_cons.1 ha with rfl | ha
    · exact Nat.le_refl _
    · exact Nat.le_trans line.first.start_le_stop (hfirst a ha)

/-- **Lines get their white space without touching a word**, unless a line break without text stands
right behind the word. -/
theorem spares_of_mem_splices {f : FormatterSettings} {spans : List Span} {moves : Moves} {root : Site}
    (hspread : root.subtokens.Pairwise (fun a b => a.stop ≤ b.start)) {a : Site}
    (ha : a ∈ root.subtokens) (hspace : a.kind ≠ .whitespace) (hline : a.endsLine = false)
    (hbreak : ∀ t ∈ root.subtokens, t.kind = .newline → t.start = a.stop → t.text ≠ "")
    {s : Splice} (h : s ∈ splices f spans moves (Line.all root)) : Patch.Spares a.span s := by
  obtain ⟨hordered, front, back, hsplit, hfront, hbefore, hbehind⟩ := bounds_of_mem_splices hspread h
  rw [hsplit] at ha
  rcases List.mem_append.1 ha with ha | ha
  · -- the word stands before the end of the line before, so behind that end it is spared
    refine Or.inr ⟨hbefore a ha, ?_⟩
    obtain ⟨init, last, rfl, hlast⟩ := hfront.resolve_left (List.ne_nil_of_mem ha)
    have hmem : last ∈ root.subtokens := by rw [hsplit]; simp
    have hinit : a ∈ init := by
      refine (List.mem_append.1 ha).resolve_right fun hsame => ?_
      rw [List.mem_singleton.1 hsame, hlast] at hline
      cases hline
    rw [hsplit] at hspread
    have hnext : a.stop ≤ last.start :=
      (List.pairwise_append.1 (List.pairwise_append.1 hspread).1).2.2 a hinit last (by simp)
    have hstop : last.stop ≤ s.span.start := hbefore last (by simp)
    have hgap : a.stop < last.stop := by
      rcases Nat.lt_or_eq_of_le hnext with hlt | heq
      · exact Nat.lt_of_lt_of_le hlt last.start_le_stop
      · rw [heq]
        exact Site.start_lt_stop (List.mem_filter.1 hmem).2
          (hbreak last hmem (beq_iff_eq.1 hlast) heq.symm)
    exact Nat.lt_of_lt_of_le hgap (Nat.le_trans hstop hordered)
  · exact Or.inl ((hbehind a ha).resolve_left hspace)

end Indent

/-! ## The word under a mark -/

namespace Patch

/-- A mark on one token of new content is a mark on that token in the new tree. -/
theorem Stands.exists_token {t : Tree} {s : Splice} {a b : Annotation} (h : Stands t.tokens s a b)
    (origin : Nat) {before after : Stored} {x : Kind × String} (hx : x.2 ≠ "")
    (helements : tokensAll s.replacement.elements = before ++ x :: after)
    (hspan : a.span = ⟨widthOf before, widthOf before + x.2.utf8ByteSize⟩) :
    ∃ r ∈ (Site.top origin t).subtokens, r.stored = x ∧ r.span = b.span := by
  obtain ⟨front, behind, rest, htokens, rfl, hsolid⟩ := h
  have hrow : solid behind = solid before ++ x :: (solid after ++ solid rest) := by
    rw [hsolid, helements]
    simp [solid, hx]
  obtain ⟨passed, others, rfl, hpassed, -⟩ := exists_split_of_solid hrow
  rw [← List.append_assoc] at htokens
  obtain ⟨left, r, right, hleft, rfl, hfront, -⟩ := Site.exists_of_tokens origin htokens
  have hmem : r ∈ (Site.top origin t).subtokens := by rw [hleft]; simp
  have hstart : r.start = widthOf front + widthOf before := by
    rw [Site.subtokens_start.1 t origin 0 [] left r right hleft, hfront, Nat.zero_add,
      widthOf_append, ← widthOf_solid passed, hpassed, widthOf_solid]
  have hstop : r.stop = r.start + r.text.utf8ByteSize := by
    rw [Site.stop_eq, Site.width_of_isToken (List.mem_filter.1 hmem).2]
  refine ⟨r, hmem, rfl, ?_⟩
  show Span.mk r.start r.stop = a.span.shift (widthOf front)
  rw [hstop, hstart, hspan, Span.shift]
  simp only [Span.mk.injEq]
  exact ⟨by omega, by rw [show r.stored.2 = r.text from rfl]; omega⟩

/-- What is first among the annotations of the splices is first among those of the outcome. -/
theorem find?_of_forall₂ {α β : Type} {R : α → β → Prop} {p : α → Bool} {q : β → Bool}
    (hpq : ∀ a b, R a b → q b = p a) {as : List α} {bs : List β} (h : List.Forall₂ R as bs) {a : α}
    (ha : as.find? p = some a) : ∃ b, bs.find? q = some b ∧ R a b := by
  induction h with
  | nil => cases ha
  | @cons a' b' as bs hab _ ih =>
      rw [List.find?_cons] at ha ⊢
      rw [hpq a' b' hab]
      cases hp : p a' with
      | true =>
          rw [hp] at ha
          obtain rfl := Option.some.inj ha
          exact ⟨b', rfl, hab⟩
      | false =>
          rw [hp] at ha
          exact ih ha

/-- The annotation covers one identifier of the new content, which has the given name. -/
def Names (s : Splice) (a : Annotation) (name : String) : Prop :=
  ∃ before after, tokensAll s.replacement.elements = before ++ (.ident, name) :: after ∧
    a.span = ⟨widthOf before, widthOf before + name.utf8ByteSize⟩

/-- The annotation cuts the name out of the replacement. -/
theorem Names.slice_eq {s : Splice} {a : Annotation} {name : String} (h : Names s a name) :
    a.span.stop ≤ s.replacement.length ∧
      slice (bytes s.replacement.text) a.span = bytes name := by
  obtain ⟨before, after, helements, hspan⟩ := h
  have htext : bytes s.replacement.text =
      bytes (textOf before) ++ (bytes name ++ bytes (textOf after)) := by
    rw [← bytes_append, ← textOf_cons (.ident, name), ← bytes_textOf_append, ← helements]
    rfl
  have hmoved : a.span = (Span.mk 0 name.utf8ByteSize).shift (bytes (textOf before)).length := by
    rw [hspan, length_bytes_textOf, Span.shift, Nat.zero_add, Nat.add_comm name.utf8ByteSize]
  constructor
  · rw [hspan, Replacement.length, width_eq.2, helements, widthOf_append, widthOf_cons]
    dsimp only
    omega
  · have hlength : name.utf8ByteSize = (bytes name).length := rfl
    rw [htext, hmoved, slice_shift, slice_append_left _ (Nat.le_of_eq hlength), slice,
      hlength, List.take_length, List.drop_zero]

theorem slice_of_isEmpty (text : List UInt8) {a : Span} (h : a.stop = a.start) :
    slice text a = [] := by
  rw [slice, h]
  exact List.drop_eq_nil_of_le (List.length_take_le _ _)

theorem mapSpan_isEmpty (p : Patch) {a : Span} (h : a.stop = a.start) :
    (p.mapSpan a).stop = (p.mapSpan a).start := by
  rw [mapSpan, h, Nat.max_self]

end Patch

/-- Right behind the identifier to rename there is no line break without text. -/
def Outcome.Unbroken (o : Outcome) : Prop :=
  ∀ r, o.renameTarget? = some r → ∀ t ∈ o.document.root.subtokens, t.kind = .newline →
    t.start = r.stop → t.text ≠ ""

theorem Outcome.renameTarget?_eq (o : Outcome) :
    o.renameTarget? = (o.annotations.find? (·.mark == .renameTarget)).map Annotation.span := by
  rw [renameTarget?, spansOf, List.head?_map, List.head?_filter]

open Patch

namespace Indent

variable {f : FormatterSettings} {d : Document} {spans : List Span} {cancel : Cancellation}
  {p : Patch} {stamp : Nat} {o : Outcome} {r : Site}

/-- **A word moves with its line.** -/
theorem slice_of_patch (hroot : d.tree.isNode = true) (hp : patch f d spans cancel = .ok p)
    (ho : p.apply d stamp = .ok o) (hlength : o.document.length ≤ maxOffset)
    (hr : r ∈ d.root.subtokens) (hspace : r.kind ≠ .whitespace) (hline : r.endsLine = false)
    (htext : r.text ≠ "")
    (hbreak : ∀ t ∈ d.root.subtokens, t.kind = .newline → t.start = r.stop → t.text ≠ "") :
    slice (bytes o.document.text) (p.mapSpan r.span) = slice (bytes d.text) r.span := by
  have hspread : d.root.subtokens.Pairwise (fun a b => a.stop ≤ b.start) :=
    Site.subtokens_spread.1 d.tree d.origin 0 []
  obtain ⟨hsubtree, htoken⟩ := List.mem_filter.1 hr
  have hwithin : r.stop ≤ d.length := by
    have hstop := (Site.subtree_within.1 d.tree d.origin 0 [] r hsubtree).2
    rwa [Nat.zero_add] at hstop
  obtain ⟨-, rfl⟩ := patch_ok hp
  refine slice_mapSpan hroot ?_ ho hlength (Site.start_lt_stop htoken htext) hwithin ?_
  · intro s hs
    exact (bounds_of_mem_splices hspread hs).1
  · intro s hs
    exact spares_of_mem_splices hspread hr hspace hline hbreak hs

/-- The name under a mark moves with its line. -/
theorem slice_of_stands (hroot : d.tree.isNode = true) (hp : patch f d spans cancel = .ok p)
    (ho : p.apply d stamp = .ok o) (hlength : o.document.length ≤ maxOffset) {s : Splice}
    {m b : Annotation} {name : String} (hstands : Stands d.tree.tokens s m b) (hname : Names s m name)
    (hbreak : ∀ t ∈ d.root.subtokens, t.kind = .newline → t.start = b.span.stop → t.text ≠ "") :
    slice (bytes o.document.text) (p.mapSpan b.span) = slice (bytes d.text) b.span := by
  obtain ⟨before, after, helements, hspan⟩ := hname
  by_cases hempty : name = ""
  · have hpoint : b.span.stop = b.span.start := by
      obtain ⟨front, -, -, -, rfl, -⟩ := hstands
      show (m.span.shift _).stop = (m.span.shift _).start
      simp [Span.shift, hspan, hempty]
    rw [slice_of_isEmpty _ hpoint, slice_of_isEmpty _ (mapSpan_isEmpty p hpoint)]
  · obtain ⟨r, hr, hstored, hrspan⟩ := hstands.exists_token d.origin hempty helements hspan
    have hkind : r.kind = .ident := congrArg Prod.fst hstored
    have htext : r.text ≠ "" := by rwa [show r.text = name from congrArg Prod.snd hstored]
    have hline : r.endsLine = false := by
      rw [Site.endsLine, hkind]
      rfl
    rw [← hrspan] at hbreak ⊢
    exact slice_of_patch hroot hp ho hlength hr (by rw [hkind]; decide) hline htext hbreak

end Indent

/-- **A name keeps its mark**, through the splices of the action and through indentation. -/
theorem CodeAction.renameTarget_of_apply {a : CodeAction} {d : Document} {options : Options}
    {cancel : Cancellation} {stamp : Nat} {applied : Applied} (hroot : d.tree.isNode = true)
    (hordered : ∀ s ∈ a.patch.splices, s.span.start ≤ s.span.stop)
    (ha : a.apply d options cancel stamp = .ok applied)
    (hlength : applied.document.length ≤ maxOffset) {s : Splice} {m : Annotation} {name : String}
    (hfirst : (marked (sort a.patch.splices)).find? (·.2.mark == .renameTarget) = some (s, m))
    (hname : Names s m name)
    (hunbroken : ∀ o, a.patch.apply d stamp = .ok o → o.Unbroken) :
    ∃ r, applied.renameTarget = some r ∧ slice (bytes applied.document.text) r = bytes name := by
  obtain ⟨o, indent, ho, hindent, hcases, -⟩ := mend_ok ha
  obtain ⟨b, hb, hstands⟩ := find?_of_forall₂ (q := (·.mark == .renameTarget))
    (fun m b h => by rw [h.follows.mark]) (stands_of_apply hroot hordered ho) hfirst
  obtain ⟨hwithin, hslice⟩ := hname.slice_eq
  have htarget : o.renameTarget? = some b.span := by rw [Outcome.renameTarget?_eq, hb]; rfl
  have hold : slice (bytes o.document.text) b.span = bytes name :=
    (hstands.follows.text hwithin).trans hslice
  rcases hcases with ⟨-, htree, hrename⟩ | ⟨-, o', ho', htree, hrename⟩
  · refine ⟨b.span, hrename.trans htarget, ?_⟩
    rw [Document.text, htree]
    exact hold
  · refine ⟨indent.mapSpan b.span, by rw [hrename, htarget]; rfl, ?_⟩
    have htext : applied.document.text = o'.document.text := by
      rw [Document.text, htree, Document.text]
    have hlength : o'.document.length ≤ maxOffset := by
      rwa [Document.length, htree] at hlength
    have hnode : o.document.tree.isNode = true := by
      obtain ⟨hfitting, hu, -⟩ := fitting_of_apply hroot hordered ho
      exact (hfitting.spliced hu).node
    have hkept := Indent.slice_of_stands hnode hindent ho' hlength hstands hname
      (hunbroken o ho b.span htarget)
    rw [htext, hkept, hold]

/-- **Annotations follow the text.**  Let a patch go through.  Its annotations lie in the new text in
the order of the splices, and each one that lies within its new content has there the text that it had
in the new content.  As long as offsets are large enough for the new text, a span that no splice touches
has where `mapSpan` says the text that it had.  So if the first identifier to rename that an action marks
has one name, the target that is left after indentation has that name too, unless a line break without
text stands right behind it. -/
theorem Document.annotations_follow (d : Document) (hroot : d.tree.isNode = true) :
    (∀ p : Patch, (∀ s ∈ p.splices, s.span.start ≤ s.span.stop) → ∀ stamp o,
      p.apply d stamp = .ok o →
      List.Forall₂ (fun m b => Follows (bytes o.document.text) m.1 m.2 b)
          (marked (sort p.splices)) o.annotations ∧
        (o.document.length ≤ maxOffset → ∀ r : Span, r.start < r.stop → r.stop ≤ d.length →
          (∀ s ∈ p.splices, Spares r s) →
          slice (bytes o.document.text) (p.mapSpan r) = slice (bytes d.text) r)) ∧
    ∀ a : CodeAction, (∀ s ∈ a.patch.splices, s.span.start ≤ s.span.stop) →
      ∀ options cancel stamp applied, a.apply d options cancel stamp = .ok applied →
      applied.document.length ≤ maxOffset → ∀ s m name,
      (marked (sort a.patch.splices)).find? (·.2.mark == .renameTarget) = some (s, m) →
      Names s m name → (∀ o, a.patch.apply d stamp = .ok o → o.Unbroken) →
      ∃ r, applied.renameTarget = some r ∧
        slice (bytes applied.document.text) r = bytes name := by
  refine ⟨fun p hordered stamp o ho => ⟨?_, fun hlength r hr hwithin hspares => ?_⟩, ?_⟩
  · exact (stands_of_apply hroot hordered ho).imp fun _ _ h => h.follows
  · exact slice_mapSpan hroot hordered ho hlength hr hwithin hspares
  · intro a hordered options cancel stamp applied ha hlength s m name hfirst hname hunbroken
    exact a.renameTarget_of_apply hroot hordered ha hlength hfirst hname hunbroken

/-- A member is put on a line of its own, which then gets its white space. -/
theorem Document.annotations_follow_member :
    let d := Document.ofText 1 "enum E\n\x7b\n    A,\n\x7d\n"
    let member : Tree := .node .enumMemberDeclaration [.token .ident "B"]
    let s : Splice := .insert 15 ⟨[Snippet.newline "\n", member, .token .comma ","],
      [⟨.renameTarget, 1, 2⟩, ⟨.formatter, 0, 3⟩]⟩
    let a : CodeAction := ⟨"Add a member", ⟨"member"⟩, .refactoring, ⟨1, [s]⟩⟩
    ∃ o applied, a.patch.apply d 2 = .ok o ∧ a.apply d {} {} 2 = .ok applied ∧
      applied.document.text = "enum E\n\x7b\n    A,\n    B,\n\x7d\n" ∧
      List.Forall₂ (fun m b => Follows (bytes o.document.text) m.1 m.2 b)
        (marked (sort a.patch.splices)) o.annotations ∧
      slice (bytes o.document.text) (a.patch.mapSpan ⟨16, 17⟩) = slice (bytes d.text) ⟨16, 17⟩ ∧
      ∃ r, applied.renameTarget = some r ∧
        slice (bytes applied.document.text) r = bytes "B" := by
  intro d member s a
  have happly : (a.patch.apply d 2).toOption.map (fun o => (decide (o.document.length ≤ maxOffset),
      o.document.root.subtokens.all (fun t => t.kind != .newline || t.text != ""))) =
      some (true, true) := by decide +kernel
  have hrun : (a.apply d {} {} 2).toOption.map (fun applied => applied.document.text) =
      some "enum E\n\x7b\n    A,\n    B,\n\x7d\n" := by decide +kernel
  have hordered : ∀ r ∈ a.patch.splices, r.span.start ≤ r.span.stop := by decide
  obtain ⟨o, ho, hchecks⟩ := Option.map_eq_some_iff.1 happly
  obtain ⟨applied, happlied, htext⟩ := Option.map_eq_some_iff.1 hrun
  obtain ⟨hlength, hsolid⟩ := Prod.mk.inj hchecks
  have ho := eq_ok_of_toOption ho
  have happlied := eq_ok_of_toOption happlied
  have hunbroken : ∀ o', a.patch.apply d 2 = .ok o' → o'.Unbroken := by
    intro o' ho' r _ t ht hkind _
    obtain rfl := Except.ok.inj (ho.symm.trans ho')
    simpa [hkind] using List.all_eq_true.1 hsolid t ht
  have hshort : applied.document.length ≤ maxOffset := by
    rw [Document.length, width_eq_length, show applied.document.tree.text = _ from htext]
    decide +kernel
  obtain ⟨hpatch, haction⟩ := d.annotations_follow (by decide +kernel)
  obtain ⟨hfollow, hspared⟩ := hpatch a.patch hordered 2 o ho
  refine ⟨o, applied, ho, happlied, htext, hfollow, ?_, ?_⟩
  · exact hspared (of_decide_eq_true hlength) ⟨16, 17⟩ (by decide) (by decide +kernel)
      (List.forall_mem_singleton.2 (Or.inl (by decide)))
  · exact haction a hordered {} {} 2 applied happlied hshort s ⟨.renameTarget, 1, 2⟩ "B"
      rfl ⟨[(.newline, "\n")], [(.comma, ",")], rfl, rfl⟩ hunbroken

/-- A line break without text behind a name: the white space for the brace behind it is put right behind
the name, and the mark takes it in. -/
theorem not_renameTarget_of_broken :
    ¬ ∀ (d : Document) (a : CodeAction) (options : Options) (cancel : Cancellation) (stamp : Nat)
      (applied : Applied), d.tree.isNode = true →
      (∀ s ∈ a.patch.splices, s.span.start ≤ s.span.stop) →
      a.apply d options cancel stamp = .ok applied → applied.document.length ≤ maxOffset →
      ∀ s m name,
      (marked (sort a.patch.splices)).find? (·.2.mark == .renameTarget) = some (s, m) →
      Names s m name →
      ∃ r, applied.renameTarget = some r ∧
        slice (bytes applied.document.text) r = bytes name := by
  intro h
  let d := Document.ofText 1 "class C\x7benum E\x7bA\x7d\x7d"
  let s : Splice := ⟨⟨15, 17⟩, none,
    ⟨[.token .ident "foo", .token .newline "", .token .rBrace "\x7d"],
      [⟨.renameTarget, 0, 3⟩, ⟨.formatter, 0, 4⟩]⟩⟩
  let a : CodeAction := ⟨"Rename the member", ⟨"member"⟩, .refactoring, ⟨1, [s]⟩⟩
  have hrun : (a.apply d {} {} 2).toOption.map
      (fun applied => (applied.document.text, applied.renameTarget)) =
      some ("class C\x7benum E\x7bfoo    \x7d\x7d", some ⟨15, 22⟩) := by decide +kernel
  obtain ⟨applied, happlied, hresult⟩ := Option.map_eq_some_iff.1 hrun
  obtain ⟨htext, htarget⟩ := Prod.mk.inj hresult
  have hshort : applied.document.length ≤ maxOffset := by
    rw [Document.length, width_eq_length, show applied.document.tree.text = _ from htext]
    decide +kernel
  obtain ⟨r, hr, hslice⟩ := h d a {} {} 2 applied (by decide +kernel) (by decide)
    (eq_ok_of_toOption happlied) hshort s ⟨.renameTarget, 0, 3⟩ "foo" rfl
    ⟨[], [(.newline, ""), (.rBrace, "\x7d")], rfl, rfl⟩
  obtain rfl := Option.some.inj (htarget.symm.trans hr)
  rw [htext] at hslice
  revert hslice
  decide +kernel

end CodeMend

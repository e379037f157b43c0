import CodeMend.Proofs.Edit.Batch
import Mathlib.Data.List.Forall2

/-!
# Where text ends up

A patch moves text: what stands behind a splice moves by the growth of the splice.  The run lemma
`spliceAll_behind` follows the tokens behind some place while the splices before that place are
made, and two things come of it.

* The annotations of an outcome are those of the splices, each moved to where the new content of its
  splice stands (`stands_of_apply`), so each has the text that it had there (`Stands.follows`).
* A span that no splice touches keeps its text, and `mapSpan` says where it is (`slice_mapSpan`).
-/

namespace CodeMend

open Tree

/-! ## Pieces of a text -/

/-- The bytes of a span. -/
def slice (text : List UInt8) (s : Span) : List UInt8 := (text.take s.stop).drop s.start

theorem slice_shift (front rest : List UInt8) (s : Span) :
    slice (front ++ rest) (s.shift front.length) = slice rest s := by
  rw [slice, Span.shift, Nat.add_comm s.stop, Nat.add_comm s.start, List.take_length_add_append,
    List.drop_length_add_append, slice]

theorem slice_append_left {front : List UInt8} (rest : List UInt8) {s : Span}
    (h : s.stop ≤ front.length) : slice (front ++ rest) s = slice front s := by
  rw [slice, List.take_append_of_le_length h, slice]

namespace Patch

theorem length_bytes_textOf (xs : Stored) : (bytes (textOf xs)).length = widthOf xs := rfl

theorem bytes_textOf_append (xs ys : Stored) :
    bytes (textOf (xs ++ ys)) = bytes (textOf xs) ++ bytes (textOf ys) := by
  rw [textOf_append, bytes_append]

/-! ## Tokens behind a place -/

/-- Where a row is cut at a place and again further left, the second cut has behind it what stands
between the two places, and the rest. -/
theorem solid_between {front behind before after : Stored} (h : front ++ behind = before ++ after)
    (hle : widthOf before ≤ widthOf front) :
    ∃ between, widthOf before + widthOf between = widthOf front ∧
      solid after = between ++ solid behind := by
  rcases List.append_eq_append_iff.1 h with ⟨more, rfl, rfl⟩ | ⟨more, rfl, rfl⟩
  · rw [widthOf_append] at hle ⊢
    have hnone : widthOf more = 0 := by omega
    exact ⟨[], by rw [hnone]; rfl, by rw [solid_append, solid_eq_nil hnone]; rfl⟩
  · refine ⟨solid more, ?_, solid_append more behind⟩
    rw [widthOf_append, widthOf_solid]

theorem spliceAll_append_ok {t : Tree} {pre post : List Splice} {u : Tree}
    (h : spliceAll t (pre ++ post) = .ok u) : ∃ v, spliceAll t post = .ok v := by
  induction pre generalizing u with
  | nil => exact ⟨u, h⟩
  | cons s pre ih =>
      obtain ⟨w, hw, -⟩ := bind_eq_ok h
      exact ih hw

/-- What is known of splices that can be applied one after the other. -/
structure Fitting (t : Tree) (ss : List Splice) : Prop where
  node : t.isNode = true
  ordered : ∀ s ∈ ss, s.span.Ordered
  within : ∀ s ∈ ss, s.span.stop ≤ t.width
  apart : ss.Pairwise (fun s t => clash s.span t.span = false)

namespace Fitting

variable {t u v : Tree} {s : Splice} {pre post ss : List Splice}

theorem tail (h : Fitting t (s :: ss)) : Fitting t ss where
  node := h.node
  ordered := fun r hr => h.ordered r (List.mem_cons_of_mem s hr)
  within := fun r hr => h.within r (List.mem_cons_of_mem s hr)
  apart := (List.pairwise_cons.1 h.apart).2

theorem right (h : Fitting t (pre ++ post)) : Fitting t post := by
  induction pre with
  | nil => exact h
  | cons s pre ih => exact ih h.tail

/-- The splices behind the first one start where it stops, or later. -/
theorem le_start (h : Fitting t (s :: ss)) : ∀ r ∈ ss, s.span.stop ≤ r.span.start := fun r hr =>
  ((clash_eq_false_iff _ _).1 ((List.pairwise_cons.1 h.apart).1 r hr)).1

theorem spliced (h : Fitting t ss) (hu : spliceAll t ss = .ok u) : Spliced t ss u :=
  (spliceAll_exact h.node h.ordered h.within h.apart).1 u hu

/-- What one more splice does to the tokens. -/
theorem swapped_cons (h : Fitting t (s :: ss)) (hu : spliceAll t ss = .ok u)
    (hv : u.splice s = .ok v) :
    Swapped 0 s.span.start s.span.stop (tokensAll s.replacement.elements) u.tokens v.tokens := by
  have hspliced := h.tail.spliced hu
  have hwidth : s.span.stop ≤ u.width := by
    rw [width_eq_length, hspliced.text]
    exact le_length_replaced h.le_start (width_eq_length t ▸ h.within s List.mem_cons_self)
  have hswapped := (splice_exact hspliced.node s (h.ordered s List.mem_cons_self) hwidth).sound [v]
    (by rw [hv]; rfl)
  rwa [show tokensAll [v] = v.tokens by simp [tokensAll]] at hswapped

/-- **The tokens behind a place move.**  Let the splices `post` be made, and then those before the
place `x`.  What has stood behind `x` then stands behind `x` and what the splices have grown. -/
theorem spliceAll_behind (h : Fitting t (pre ++ post)) {x : Nat}
    (hpre : ∀ s ∈ pre, s.span.stop ≤ x) (hv : spliceAll t post = .ok v) {front behind : Stored}
    (htokens : v.tokens = front ++ behind) (hx : widthOf front = x)
    (hu : spliceAll t (pre ++ post) = .ok u) :
    ∃ front' behind', u.tokens = front' ++ behind' ∧
      (widthOf front' : Int) = x + totalGrowth pre ∧ solid behind' = solid behind ∧
      ∀ y ≤ x, (∀ s ∈ pre, y ≤ s.span.start) → y ≤ widthOf front' := by
  induction pre generalizing u with
  | nil =>
      obtain rfl : v = u := Except.ok.inj (hv.symm.trans hu)
      exact ⟨front, behind, htokens, by simp [hx], rfl, fun y hy _ => hx ▸ hy⟩
  | cons s pre ih =>
      obtain ⟨w, hw, hsplice⟩ := bind_eq_ok hu
      obtain ⟨front', behind', hrow, hwidth, hsame, hfront⟩ :=
        ih h.tail (fun r hr => hpre r (List.mem_cons_of_mem s hr)) hw
      have hstop : s.span.stop ≤ widthOf front' :=
        hfront s.span.stop (hpre s List.mem_cons_self) fun r hr =>
          h.le_start r (List.mem_append_left post hr)
      obtain ⟨before, cut, after, rest, hcut, hnew, hbefore, hcutwidth, -, hrest⟩ :=
        h.swapped_cons hw hsplice
      have hbefore : widthOf before = s.span.start := by omega
      rw [hrow, ← List.append_assoc] at hcut
      obtain ⟨between, hbetween, hafter⟩ := solid_between hcut (by rw [widthOf_append]; omega)
      rw [widthOf_append] at hbetween
      rw [hafter, hsame] at hrest
      obtain ⟨kept, behind'', rfl, hkept, hbehind⟩ := List.filter_eq_append_iff.1 hrest
      have hkeptwidth : widthOf kept = widthOf between := by
        rw [← widthOf_solid, show solid kept = between from hkept]
      have hlength : widthOf (tokensAll s.replacement.elements) = s.replacement.length :=
        (width_eq.2 _).symm
      refine ⟨before ++ (tokensAll s.replacement.elements ++ kept), behind'', by rw [hnew]; simp, ?_,
        hbehind, fun y hy hle => ?_⟩
      · rw [widthOf_append, widthOf_append, hkeptwidth, hlength, totalGrowth_cons, Splice.growth,
          Span.length]
        have := h.ordered s List.mem_cons_self
        unfold Span.Ordered at this
        omega
      · have := hle s List.mem_cons_self
        rw [widthOf_append]
        omega

/-- The tokens of new content stand where `placed` says, but for those without text. -/
theorem spliceAll_placed (h : Fitting t (pre ++ s :: post))
    (hu : spliceAll t (pre ++ s :: post) = .ok u) : ∃ front behind rest,
      u.tokens = front ++ behind ∧
      (widthOf front : Int) = s.span.start + totalGrowth pre ∧
      solid behind = solid (tokensAll s.replacement.elements) ++ solid rest := by
  obtain ⟨v, hv⟩ := spliceAll_append_ok hu
  obtain ⟨w, hw, hsplice⟩ := bind_eq_ok hv
  have hpre : ∀ r ∈ pre, r.span.stop ≤ s.span.start := fun r hr =>
    ((clash_eq_false_iff _ _).1 ((List.pairwise_append.1 h.apart).2.2 r hr s List.mem_cons_self)).1
  obtain ⟨before, cut, after, rest, -, hnew, hbefore, -, -, -⟩ := h.right.swapped_cons hw hsplice
  obtain ⟨front, behind, hrow, hwidth, hsame, -⟩ :=
    h.spliceAll_behind hpre hv hnew (by omega) hu
  exact ⟨front, behind, rest, hrow, hwidth, by rw [hsame, solid_append]⟩

end Fitting

/-! ## Annotations -/

/-- The annotations of splices, each with its splice. -/
def marked (ss : List Splice) : List (Splice × Annotation) :=
  ss.flatMap fun s => s.replacement.annotations.map (s, ·)

/-- What holds of the annotations of each splice, moved to the place of its new content, holds of all
annotations pair by pair. -/
theorem forall₂_placed {R : Splice × Annotation → Annotation → Prop} {ss : List Splice} (before : Int)
    (h : ∀ pre s post, ss = pre ++ s :: post → ∀ a ∈ s.replacement.annotations,
      R (s, a) (a.shift (s.span.start + (before + totalGrowth pre)).toNat)) :
    List.Forall₂ R (marked ss) (placed before ss) := by
  induction ss generalizing before with
  | nil => exact .nil
  | cons s ss ih =>
      rw [marked, List.flatMap_cons, placed]
      refine List.rel_append ?_ (ih (before + s.growth) fun pre r post hss a ha => ?_)
      · rw [List.forall₂_map_left_iff, List.forall₂_map_right_iff, List.forall₂_same]
        intro a ha
        simpa using h [] s ss rfl a ha
      · have hall := h (s :: pre) r post (by rw [hss]; rfl) a ha
        rwa [totalGrowth_cons, ← Int.add_assoc before] at hall

/-- An annotation of new content and what has become of it in a new text: it has the same mark, and
if it lies within the new content, then the same text. -/
structure Follows (text : List UInt8) (s : Splice) (a b : Annotation) : Prop where
  mark : b.mark = a.mark
  text : a.span.stop ≤ s.replacement.length →
    slice text b.span = slice (bytes s.replacement.text) a.span

variable {p : Patch} {d : Document} {stamp : Nat} {o : Outcome}

/-- What is known of the splices of a patch that goes through, by their places. -/
theorem fitting_of_apply (hroot : d.tree.isNode = true)
    (hordered : ∀ s ∈ p.splices, s.span.start ≤ s.span.stop) (ho : p.apply d stamp = .ok o) :
    Fitting d.tree (sort p.splices) ∧ spliceAll d.tree (sort p.splices) = .ok o.document.tree ∧
      o.annotations = placed 0 (sort p.splices) := by
  obtain ⟨sorted, hvalid, hu, hplaced⟩ := apply_ok ho
  obtain ⟨rfl, hclash, hwithin⟩ := (validate_eq_ok_iff (version_of_validate hvalid)).1 hvalid
  have hperm := sort_perm p.splices
  have hordered' : ∀ s ∈ sort p.splices, s.span.Ordered := fun s hs =>
    hordered s (hperm.mem_iff.1 hs)
  exact ⟨⟨hroot, hordered', fun s hs => hwithin s (hperm.mem_iff.1 hs),
    (firstClash_eq_none_iff hordered').1 hclash⟩, hu, hplaced⟩

/-- The annotation `b` is the annotation `a` of a splice, moved to where the tokens of its new content
stand, but for those without text. -/
def Stands (tokens : Stored) (s : Splice) (a b : Annotation) : Prop :=
  ∃ front behind rest, tokens = front ++ behind ∧ b = a.shift (widthOf front) ∧
    solid behind = solid (tokensAll s.replacement.elements) ++ solid rest

/-- An annotation that stands between tokens follows its bytes. -/
theorem Stands.follows {t : Tree} {s : Splice} {a b : Annotation} (h : Stands t.tokens s a b) :
    Follows (bytes t.text) s a b := by
  obtain ⟨front, behind, rest, htokens, rfl, hsolid⟩ := h
  refine ⟨rfl, fun hwithin => ?_⟩
  have hbehind : bytes (textOf behind) = bytes s.replacement.text ++ bytes (textOf rest) := by
    rw [textOf_congr (hsolid.trans (solid_append _ _).symm), bytes_textOf_append]
    rfl
  have hlength : a.span.stop ≤ (bytes s.replacement.text).length := by
    rw [show (bytes s.replacement.text).length = widthOf (tokensAll s.replacement.elements) from rfl,
      ← width_eq.2]
    exact hwithin
  show slice (bytes (textOf t.tokens)) (a.span.shift (widthOf front)) = _
  rw [htokens, bytes_textOf_append, ← length_bytes_textOf front, slice_shift, hbehind,
    slice_append_left _ hlength]

/-- **Annotations move with their content.**  The annotations of an outcome are those of the splices
in the order of their places, one for one. -/
theorem stands_of_apply (hroot : d.tree.isNode = true)
    (hordered : ∀ s ∈ p.splices, s.span.start ≤ s.span.stop) (ho : p.apply d stamp = .ok o) :
    List.Forall₂ (fun m b => Stands o.document.tree.tokens m.1 m.2 b)
      (marked (sort p.splices)) o.annotations := by
  obtain ⟨hfitting, hu, hplaced⟩ := fitting_of_apply hroot hordered ho
  rw [hplaced]
  refine forall₂_placed 0 fun pre s post hss a ha => ?_
  rw [hss] at hfitting hu
  obtain ⟨front, behind, rest, htokens, hwidth, hsolid⟩ := hfitting.spliceAll_placed hu
  refine ⟨front, behind, rest, htokens, ?_, hsolid⟩
  rw [show (s.span.start + (0 + totalGrowth pre)).toNat = widthOf front by omega]

/-! ## Spans that no splice touches -/

/-- A splice ends before a span, or it starts and ends behind it. -/
def Spares (r : Span) (s : Splice) : Prop :=
  s.span.stop ≤ r.start ∨ r.stop ≤ s.span.start ∧ r.stop < s.span.stop

/-- Sorted splices that spare a span are those before it and then those behind it. -/
theorem exists_around {ss : List Splice} {r : Span} (hr : r.start < r.stop)
    (hordered : ∀ s ∈ ss, s.span.Ordered) (hspares : ∀ s ∈ ss, Spares r s)
    (hsorted : ss.Pairwise (fun s t => spanLE s.span t.span = true)) :
    ∃ post, ss = ss.filter (·.span.stop ≤ r.start) ++ post ∧ ∀ s ∈ post, r.stop ≤ s.span.start := by
  refine ⟨_, (filter_append_filter_not ?_).symm, fun s hs => ?_⟩
  · refine hsorted.imp_of_mem fun {s t} hs ht hle hstop => ?_
    have htordered := hordered t ht
    unfold Span.Ordered at htordered
    rw [spanLE_iff] at hle
    simp only [decide_eq_true_eq] at hstop ⊢
    rcases hspares s hs with h | h <;> omega
  · obtain ⟨hs, hlate⟩ := List.mem_filter.1 hs
    rcases hspares s hs with h | h
    · simp [h] at hlate
    · exact h.1

/-- A border between tokens behind splices and before an offset. -/
theorem exists_border {t : Tree} {ss : List Splice} {n : Nat} (hstop : ∀ s ∈ ss, s.span.stop ≤ n)
    (hborder : ∀ s ∈ ss, Border 0 t.tokens s.span.stop) :
    ∃ x ≤ n, (∀ s ∈ ss, s.span.stop ≤ x) ∧ Border 0 t.tokens x := by
  induction ss with
  | nil => exact ⟨0, Nat.zero_le n, by simp, border_start 0 _⟩
  | cons s ss ih =>
      obtain ⟨hs, hss⟩ := List.forall_mem_cons.1 hstop
      obtain ⟨hb, hbs⟩ := List.forall_mem_cons.1 hborder
      obtain ⟨x, hx, hle, hborder⟩ := ih hss hbs
      rcases Nat.le_total s.span.stop x with h | h
      · exact ⟨x, hx, List.forall_mem_cons.2 ⟨h, hle⟩, hborder⟩
      · exact ⟨s.span.stop, hs, List.forall_mem_cons.2
          ⟨Nat.le_refl _, fun r hr => Nat.le_trans (hle r hr) h⟩, hb⟩

/-- Splices that start behind an offset do not change the text up to it. -/
theorem Fitting.take_eq {t u : Tree} {ss : List Splice} (h : Fitting t ss)
    (hu : spliceAll t ss = .ok u) {n : Nat} (hss : ∀ s ∈ ss, n ≤ s.span.start) (hn : n ≤ t.width) :
    n ≤ u.width ∧ (bytes u.text).take n = (bytes t.text).take n := by
  rw [width_eq_length] at hn
  rw [width_eq_length, (h.spliced hu).text]
  refine ⟨le_length_replaced hss hn, ?_⟩
  rw [replaced_eq hss hn, List.take_left' (by rw [List.length_take]; omega)]

/-- What stands between two offsets that splices leave alone, in the new text: `x` is a border before
it, behind which the text up to the second offset stays. -/
theorem Fitting.exists_moved {t u : Tree} {pre post : List Splice} (h : Fitting t (pre ++ post))
    (hu : spliceAll t (pre ++ post) = .ok u) {r : Span} (hr : r.start < r.stop)
    (hwithin : r.stop ≤ t.width) (hpre : ∀ s ∈ pre, s.span.stop ≤ r.start)
    (hpost : ∀ s ∈ post, r.stop ≤ s.span.start) :
    ∃ x front behind, x ≤ r.start ∧ bytes u.text = front ++ behind ∧
      (front.length : Int) = x + totalGrowth pre ∧ r.stop - x ≤ behind.length ∧
      behind.take (r.stop - x) = ((bytes t.text).take r.stop).drop x := by
  obtain ⟨v, hv⟩ := spliceAll_append_ok hu
  obtain ⟨x, hx, hle, hborder⟩ := exists_border hpre fun s hs =>
    ((h.spliced hu).borders s (List.mem_append_left post hs)).2
  have hxwidth : x ≤ t.width := by omega
  obtain ⟨front, behind, htokens, hfront⟩ := ((h.right.spliced hv).kept x hxwidth fun s hs => by
    have := hpost s hs
    omega).2 hborder
  rw [Nat.zero_add] at hfront
  obtain ⟨front', behind', htokens', hwidth, hsame, -⟩ := h.spliceAll_behind hle hv htokens hfront hu
  obtain ⟨hlong, htake⟩ := h.right.take_eq hv hpost hwithin
  have hv : bytes v.text = bytes (textOf front) ++ bytes (textOf behind) := by
    rw [← bytes_textOf_append, ← htokens]
    rfl
  refine ⟨x, bytes (textOf front'), bytes (textOf behind), hx, ?_, hwidth, ?_, ?_⟩
  · rw [← textOf_congr hsame, ← bytes_textOf_append, ← htokens']
    rfl
  · rw [width_eq_length, hv, List.length_append, length_bytes_textOf, hfront] at hlong
    omega
  · have hlength : (bytes (textOf front)).length = x := hfront
    have hfull : (bytes (textOf front)).take r.stop = bytes (textOf front) :=
      List.take_of_length_le (by omega)
    rw [← htake, hv, List.take_append, hlength, hfull, List.drop_left' hlength]

/-- Where the ends of a span are mapped to that all splices spare. -/
theorem mapOffset_of_spares {r : Span} (hr : r.start < r.stop)
    (hspares : ∀ s ∈ p.splices, Spares r s) {n : Nat} (hstart : r.start ≤ n) (hstop : n ≤ r.stop) :
    p.mapOffset n = min ((n : Int) +
      totalGrowth ((sort p.splices).filter (·.span.stop ≤ r.start))).toNat maxOffset := by
  have hfilter : p.splices.filter (·.span.stop ≤ n) = p.splices.filter (·.span.stop ≤ r.start) := by
    refine List.filter_congr fun s hs => decide_eq_decide.2 ?_
    rcases hspares s hs with h | h <;> omega
  rw [totalGrowth_perm ((sort_perm p.splices).filter _), ← hfilter]
  rfl

/-- **Spans that no splice touches keep their text**, and `mapSpan` says where they are, as long as
the new text is not longer than the greatest offset. -/
theorem slice_mapSpan (hroot : d.tree.isNode = true)
    (hordered : ∀ s ∈ p.splices, s.span.start ≤ s.span.stop) (ho : p.apply d stamp = .ok o)
    (hlength : o.document.length ≤ maxOffset) {r : Span} (hr : r.start < r.stop)
    (hwithin : r.stop ≤ d.length) (hspares : ∀ s ∈ p.splices, Spares r s) :
    slice (bytes o.document.text) (p.mapSpan r) = slice (bytes d.text) r := by
  obtain ⟨hfitting, hu, -⟩ := fitting_of_apply hroot hordered ho
  obtain ⟨post, hsplit, hpost⟩ := exists_around hr hfitting.ordered
    (fun s hs => hspares s ((sort_perm p.splices).mem_iff.1 hs)) (sort_sorted p.splices)
  have hstart := mapOffset_of_spares hr hspares (Nat.le_refl _) (Nat.le_of_lt hr)
  have hstop := mapOffset_of_spares hr hspares (Nat.le_of_lt hr) (Nat.le_refl _)
  have hpre : ∀ s ∈ (sort p.splices).filter (·.span.stop ≤ r.start), s.span.stop ≤ r.start :=
    fun s hs => by simpa using (List.mem_filter.1 hs).2
  generalize (sort p.splices).filter (·.span.stop ≤ r.start) = pre at *
  rw [hsplit] at hfitting hu
  obtain ⟨x, front, behind, hx, htext, hwidth, hlong, htake⟩ :=
    hfitting.exists_moved hu hr hwithin hpre hpost
  have hgrown : o.document.length = front.length + behind.length := by
    rw [← List.length_append, ← htext]
    exact width_eq_length _
  have hmap : p.mapSpan r = (Span.mk (r.start - x) (r.stop - x)).shift front.length := by
    rw [mapSpan, hstart, hstop]
    simp only [Span.shift, Span.mk.injEq]
    omega
  calc slice (bytes o.document.text) (p.mapSpan r)
      = slice behind ⟨r.start - x, r.stop - x⟩ := by
        rw [hmap, show bytes o.document.text = front ++ behind from htext, slice_shift]
    _ = ((bytes d.text).take r.stop).drop (x + (r.start - x)) := by
        rw [slice, htake, List.drop_drop]
        rfl
    _ = slice (bytes d.text) r := by rw [Nat.add_sub_cancel' hx, slice]

end Patch

end CodeMend

import CodeMend.Edit.Patch
import CodeMend.Proofs.Edit.Splicing
import CodeMend.Proofs.Ordered
import Mathlib.Data.List.Basic
import Mathlib.Data.List.Infix
import Mathlib.Data.List.Pairwise

/-!
# A patch replaces all its spans at once

Splices are sorted, only neighbours are compared, and they are applied one after the other from the
end of the text.  None of that can be seen in the result: a patch goes through if and only if its
splices are `Separate`, lie within the text and start and end between tokens, and the new text is
`replaced`, which says of every offset of the old text what stands there in the new one.

* `firstClash_sort_iff`: comparing neighbours compares all;
* `spliceAll_exact`: the run lemma, one splice after the other;
* `replaced_cons`: replacing at once is replacing one after the other.

One more thing can go wrong: new text may start behind the greatest offset.  It does not where the
trees on the way are short enough (`Fits`), since the start of new text lies within them
(`reachable_of_fits`).
-/

namespace CodeMend

/-! ## Separate spans -/

/-- Two spans share no byte, neither is a point strictly inside the other, and they are not the same
point. -/
structure Separate (a b : Span) : Prop where
  apart : ∀ i, ¬ (a.contains i = true ∧ b.contains i = true)
  left : a.isEmpty = true → ¬ (b.start < a.start ∧ a.start < b.stop)
  right : b.isEmpty = true → ¬ (a.start < b.start ∧ b.start < a.stop)
  points : a.isEmpty = true → b.isEmpty = true → a.start ≠ b.start

/-- To be separate goes both ways. -/
theorem Separate.symm {a b : Span} (h : Separate a b) : Separate b a where
  apart := fun i hi => h.apart i hi.symm
  left := h.right
  right := h.left
  points := fun hb ha => (h.points ha hb).symm

/-- The ends of a span are in order. -/
def Span.Ordered (s : Span) : Prop := s.start ≤ s.stop

namespace Patch

theorem spanLE_iff (a b : Span) :
    spanLE a b = true ↔ a.start < b.start ∨ a.start = b.start ∧ a.stop ≤ b.stop := by
  simp [spanLE]

/-- Two spans in the order of the sort do not clash if the first ends before the second starts,
unless both are the same point. -/
theorem clash_eq_false_iff (a b : Span) :
    clash a b = false ↔ a.stop ≤ b.start ∧
      ¬ (a.start = a.stop ∧ b.start = b.stop ∧ a.start = b.start) := by
  simp [clash, Span.isEmpty]

/-- Not to clash carries over from neighbour to neighbour. -/
theorem clash_trans {a b c : Span} (hb : b.Ordered) (hab : clash a b = false)
    (hbc : clash b c = false) : clash a c = false := by
  rw [clash_eq_false_iff] at *
  unfold Span.Ordered at hb
  omega

/-- Comparing neighbours is enough: where no two of them clash, no two splices do. -/
theorem firstClash_eq_none_iff {ss : List Splice} (hordered : ∀ s ∈ ss, s.span.Ordered) :
    firstClash ss = none ↔ ss.Pairwise (fun s t => clash s.span t.span = false) := by
  fun_induction firstClash ss with
  | case1 s t ts hclash =>
      refine ⟨fun h => absurd h (by simp), fun h => ?_⟩
      rw [(List.pairwise_cons.1 h).1 t List.mem_cons_self] at hclash
      cases hclash
  | case2 s t ts hclash ih =>
      have hclash : clash s.span t.span = false := Bool.eq_false_iff.2 hclash
      rw [ih fun u hu => hordered u (List.mem_cons_of_mem s hu)]
      refine ⟨fun h => List.pairwise_cons.2 ⟨fun u hu => ?_, h⟩, fun h => (List.pairwise_cons.1 h).2⟩
      rcases List.mem_cons.1 hu with rfl | hu
      · exact hclash
      · exact clash_trans (hordered t (by simp)) hclash ((List.pairwise_cons.1 h).1 u hu)
  | case3 ss hshort =>
      refine ⟨fun _ => ?_, fun _ => rfl⟩
      match ss, hshort with
      | [], _ => exact List.Pairwise.nil
      | [s], _ => exact List.pairwise_singleton _ s
      | s :: t :: ts, hshort => exact (hshort s t ts rfl).elim

/-! ## Sorting -/

/-- Splices are sorted by an order. -/
theorem spanLE_isOrder : IsOrder fun s t : Splice => spanLE s.span t.span where
  total s t := by
    rw [spanLE_iff, spanLE_iff]
    omega
  trans hst htu := by
    rw [spanLE_iff] at *
    omega

/-- To sort splices is to rearrange them. -/
theorem sort_perm (ss : List Splice) : (sort ss).Perm ss := sortBy_perm ss

/-- Sorted splices are in order. -/
theorem sort_sorted (ss : List Splice) :
    (sort ss).Pairwise (fun s t => spanLE s.span t.span = true) := sortBy_sorted spanLE_isOrder ss

/-- The bytes of a text. -/
def bytes (text : String) : List UInt8 := text.toByteArray.data.toList

/-- What stands in the new text for offset `i` of the old one: what is inserted there, what replaces
a span that starts there, and the old byte unless a span covers it. -/
def standsFor (ss : List Splice) (old : List UInt8) (i : Nat) : List UInt8 :=
  (ss.filter (fun s => s.span == .point i)).flatMap (fun s => bytes s.replacement.text)
    ++ (ss.filter (fun s => s.span.start == i && !s.span.isEmpty)).flatMap
      (fun s => bytes s.replacement.text)
    ++ if ss.any (·.span.contains i) then [] else old[i]?.toList

/-- The text with every span replaced at once. -/
def replaced (ss : List Splice) (old : List UInt8) : List UInt8 :=
  (List.range (old.length + 1)).flatMap (standsFor ss old)

/-- The text with one span replaced. -/
def swapped (old : List UInt8) (s : Splice) : List UInt8 :=
  old.take s.span.start ++ bytes s.replacement.text ++ old.drop s.span.stop

/-- The bytes of two texts, one behind the other. -/
theorem bytes_append (s t : String) : bytes (s ++ t) = bytes s ++ bytes t := by
  simp [bytes, String.toByteArray_append]

/-- The bytes at a row of offsets are a piece of the text. -/
theorem range'_flatMap_getElem? (old : List UInt8) (a k : Nat) :
    (List.range' a k).flatMap (fun i => old[i]?.toList) = (old.drop a).take k := by
  induction k generalizing a with
  | zero => simp
  | succ k ih =>
      rw [List.range'_succ, List.flatMap_cons, ih]
      by_cases ha : a < old.length
      · rw [List.drop_eq_getElem_cons ha, List.getElem?_eq_getElem ha]
        rfl
      · rw [List.drop_eq_nil_of_le (by omega), List.drop_eq_nil_of_le (by omega),
          List.getElem?_eq_none (by omega)]
        simp

/-- Nothing is inserted before the first splice. -/
theorem filter_point_eq_nil {ss : List Splice} {i : Nat} (h : ∀ s ∈ ss, i < s.span.start) :
    ss.filter (fun s => s.span == .point i) = [] := by
  refine List.filter_eq_nil_iff.2 fun s hs hpoint => ?_
  have hstart : s.span.start = i := congrArg Span.start (beq_iff_eq.1 hpoint)
  exact absurd (h s hs) (by omega)

/-- Nothing is replaced before the first splice. -/
theorem filter_start_eq_nil {ss : List Splice} {i : Nat} (h : ∀ s ∈ ss, i < s.span.start) :
    ss.filter (fun s => s.span.start == i && !s.span.isEmpty) = [] := by
  refine List.filter_eq_nil_iff.2 fun s hs hstart => ?_
  have hstart : s.span.start = i := by simpa using (Bool.and_eq_true_iff.1 hstart).1
  exact absurd (h s hs) (by omega)

/-- Before the first splice the text stays. -/
theorem standsFor_before {ss : List Splice} {i : Nat} (old : List UInt8)
    (h : ∀ s ∈ ss, i < s.span.start) : standsFor ss old i = old[i]?.toList := by
  have hcovers : ss.any (·.span.contains i) = false := by
    refine List.any_eq_false.2 fun s hs hcovers => ?_
    have hle : s.span.start ≤ i := by simpa using (Bool.and_eq_true_iff.1 hcovers).1
    exact absurd (h s hs) (by omega)
  simp [standsFor, filter_point_eq_nil h, filter_start_eq_nil h, hcovers]

/-- Inside a span there is only the replacement, and it stands at the start. -/
theorem standsFor_inside {s : Splice} {ss : List Splice} {i : Nat} (old : List UInt8)
    (h : ∀ t ∈ ss, i < t.span.start) (hstart : s.span.start ≤ i) (hstop : i < s.span.stop) :
    standsFor (s :: ss) old i =
      if s.span.start = i then bytes s.replacement.text else [] := by
  have hpoint : (s.span == .point i) = false := by
    refine beq_eq_false_iff_ne.2 fun hpoint => ?_
    have hsame : s.span.stop = i := congrArg Span.stop hpoint
    omega
  have hempty : s.span.isEmpty = false := by
    refine beq_eq_false_iff_ne.2 fun hsame => ?_
    omega
  have hcovers : s.span.contains i = true := by simp [Span.contains, hstart, hstop]
  by_cases hsame : s.span.start = i
  · simp [standsFor, hpoint, filter_point_eq_nil h, filter_start_eq_nil h, hcovers, hempty, hsame]
  · simp [standsFor, hpoint, filter_point_eq_nil h, filter_start_eq_nil h, hcovers, hsame]

/-- Behind a span that is not empty the other splices decide. -/
theorem standsFor_behind {s : Splice} {ss : List Splice} {i : Nat} (old : List UInt8)
    (hspan : s.span.start < s.span.stop) (hstop : s.span.stop ≤ i) :
    standsFor (s :: ss) old i = standsFor ss old i := by
  have hpoint : (s.span == .point i) = false := by
    refine beq_eq_false_iff_ne.2 fun hpoint => ?_
    have hsame : s.span.start = i := congrArg Span.start hpoint
    omega
  have hstart : (s.span.start == i) = false := beq_eq_false_iff_ne.2 (by omega)
  have hcovers : s.span.contains i = false := by
    simp only [Span.contains, Bool.and_eq_false_iff, decide_eq_false_iff_not]
    omega
  simp [standsFor, hpoint, hstart, hcovers]

/-- An insertion comes before all else at its offset. -/
theorem standsFor_point {s : Splice} {ss : List Splice} {i : Nat} (old : List UInt8)
    (hspan : s.span.start = s.span.stop) :
    standsFor (s :: ss) old i =
      (if s.span.start = i then bytes s.replacement.text else []) ++ standsFor ss old i := by
  have hempty : s.span.isEmpty = true := beq_iff_eq.2 hspan
  have hcovers : s.span.contains i = false := by
    simp only [Span.contains, Bool.and_eq_false_iff, decide_eq_false_iff_not]
    omega
  have hpoint : (s.span == .point i) = decide (s.span.start = i) := by
    rw [Bool.eq_iff_iff, beq_iff_eq, decide_eq_true_iff]
    refine ⟨congrArg Span.start, fun hstart => ?_⟩
    subst hstart
    exact congrArg (Span.mk s.span.start) hspan.symm
  simp only [standsFor, List.filter_cons, hpoint, hempty, List.any_cons, hcovers]
  split <;> simp_all

/-- What stands only at the first of a row of offsets. -/
theorem range'_flatMap_first (a k : Nat) (first : List UInt8) (others : Nat → List UInt8) :
    (List.range' a (k + 1)).flatMap (fun i => (if a = i then first else []) ++ others i) =
      first ++ (List.range' a (k + 1)).flatMap others := by
  have htail : (List.range' (a + 1) k).flatMap (fun i => (if a = i then first else []) ++ others i) =
      (List.range' (a + 1) k).flatMap others := by
    refine List.flatMap_congr fun i hi => ?_
    have hne : a ≠ i := by
      have := List.left_le_of_mem_range' hi
      omega
    simp [hne]
  simp [List.range'_succ, htail]

/-- The text up to the first splice stays. -/
theorem flatMap_before {ss : List Splice} {n : Nat} (old : List UInt8)
    (h : ∀ t ∈ ss, n ≤ t.span.start) :
    (List.range' 0 n).flatMap (standsFor ss old) = old.take n := by
  calc (List.range' 0 n).flatMap (standsFor ss old)
      = (List.range' 0 n).flatMap (fun i => old[i]?.toList) :=
        List.flatMap_congr fun i hi => standsFor_before old fun t ht =>
          Nat.lt_of_lt_of_le (by simpa using (List.mem_range'_1.1 hi).2) (h t ht)
    _ = old.take n := by rw [range'_flatMap_getElem?, List.drop_zero]

/-- From an insertion on, its text comes first and the other splices follow. -/
theorem flatMap_point {s : Splice} {ss : List Splice} (old : List UInt8) (k : Nat)
    (hspan : s.span.start = s.span.stop) :
    (List.range' s.span.stop (k + 1)).flatMap (standsFor (s :: ss) old) =
      bytes s.replacement.text ++
        (List.range' s.span.stop (k + 1)).flatMap (standsFor ss old) := by
  rw [← range'_flatMap_first]
  refine List.flatMap_congr fun i _ => ?_
  rw [standsFor_point old hspan, hspan]

/-- For all offsets of a span there is the replacement once. -/
theorem flatMap_span {s : Splice} {ss : List Splice} {m : Nat} (old : List UInt8)
    (hspan : s.span.stop = s.span.start + (m + 1)) (hss : ∀ t ∈ ss, s.span.stop ≤ t.span.start) :
    (List.range' s.span.start (m + 1)).flatMap (standsFor (s :: ss) old) =
      bytes s.replacement.text := by
  have hfirst := range'_flatMap_first s.span.start m (bytes s.replacement.text) (fun _ => [])
  have hnil : (List.range' s.span.start (m + 1)).flatMap (fun _ => ([] : List UInt8)) = [] :=
    List.flatMap_eq_nil_iff.2 fun _ _ => rfl
  rw [hnil, List.append_nil] at hfirst
  rw [← hfirst]
  refine List.flatMap_congr fun i hi => ?_
  obtain ⟨hstart, hstop⟩ := List.mem_range'_1.1 hi
  rw [List.append_nil]
  refine standsFor_inside old (fun t ht => ?_) hstart (by omega)
  have := hss t ht
  omega

/-- Behind a span its splice plays no part. -/
theorem flatMap_behind {s : Splice} {ss : List Splice} (old : List UInt8) (k : Nat)
    (hspan : s.span.start < s.span.stop) :
    (List.range' s.span.stop k).flatMap (standsFor (s :: ss) old) =
      (List.range' s.span.stop k).flatMap (standsFor ss old) :=
  List.flatMap_congr fun _ hi => standsFor_behind old hspan (List.mem_range'_1.1 hi).1

/-- The text before the first splice, and the rest. -/
theorem replaced_eq {ss : List Splice} {old : List UInt8} {n : Nat}
    (h : ∀ t ∈ ss, n ≤ t.span.start) (hn : n ≤ old.length) :
    replaced ss old = old.take n ++
      (List.range' n (old.length - n + 1)).flatMap (standsFor ss old) := by
  have happend := List.range'_append_1 (s := 0) (m := n) (n := old.length - n + 1)
  rw [Nat.zero_add] at happend
  have hlength : old.length + 1 = n + (old.length - n + 1) := by omega
  rw [replaced, List.range_eq_range', hlength, ← happend, List.flatMap_append,
    flatMap_before old h]

/-- Without splices the text stays. -/
theorem replaced_nil (old : List UInt8) : replaced [] old = old := by
  have hfront : (List.range' 0 (old.length + 1)).flatMap (standsFor [] old) =
      old.take (old.length + 1) := flatMap_before old (by simp)
  rw [replaced, List.range_eq_range', hfront, List.take_of_length_le (by omega)]

/-- The new text reaches at least to where the first splice starts. -/
theorem le_length_replaced {ss : List Splice} {old : List UInt8} {n : Nat}
    (h : ∀ t ∈ ss, n ≤ t.span.start) (hn : n ≤ old.length) : n ≤ (replaced ss old).length := by
  rw [replaced_eq h hn, List.length_append, List.length_take]
  omega

/-- **Replacing at once is replacing one after the other**, from the end to the start. -/
theorem replaced_cons {s : Splice} {ss : List Splice} {old : List UInt8}
    (hordered : s.span.Ordered) (hstop : s.span.stop ≤ old.length)
    (hss : ∀ t ∈ ss, s.span.stop ≤ t.span.start) :
    replaced (s :: ss) old = swapped (replaced ss old) s := by
  unfold Span.Ordered at hordered
  have hbefore : ∀ t ∈ s :: ss, s.span.start ≤ t.span.start := by
    intro t ht
    rcases List.mem_cons.1 ht with rfl | ht
    · exact Nat.le_refl _
    · exact Nat.le_trans hordered (hss t ht)
  have hswapped : swapped (replaced ss old) s = old.take s.span.start ++
      (bytes s.replacement.text ++
        (List.range' s.span.stop (old.length - s.span.stop + 1)).flatMap (standsFor ss old)) := by
    have hlength : (old.take s.span.stop).length = s.span.stop := by
      rw [List.length_take]
      omega
    rw [swapped, replaced_eq hss hstop, List.take_append_of_le_length (by omega), List.take_take,
      Nat.min_eq_left hordered, List.drop_left' hlength, List.append_assoc]
  rw [hswapped, replaced_eq hbefore (by omega)]
  congr 1
  -- the offsets inside the span, and those behind it
  obtain ⟨m, hm⟩ : ∃ m, s.span.stop = s.span.start + m := ⟨s.span.stop - s.span.start, by omega⟩
  cases m with
  | zero =>
      obtain hspan : s.span.start = s.span.stop := by omega
      rw [hspan]
      exact flatMap_point old _ hspan
  | succ m =>
      have hlength : old.length - s.span.start + 1 =
          (m + 1) + (old.length - s.span.stop + 1) := by omega
      have happend := List.range'_append_1 (s := s.span.start) (m := m + 1)
        (n := old.length - s.span.stop + 1)
      rw [hlength, ← happend, ← hm, List.flatMap_append, flatMap_span old hm hss,
        flatMap_behind old _ (by omega)]

/-- What is known of a tree `u` that splices have made of `t`. -/
structure Spliced (t : Tree) (ss : List Splice) (u : Tree) : Prop where
  node : u.isNode = true
  borders : ∀ s ∈ ss, Tree.Border 0 t.tokens s.span.start ∧ Tree.Border 0 t.tokens s.span.stop
  kept : ∀ p, p ≤ t.width → (∀ s ∈ ss, p ≤ s.span.start) →
    (Tree.Border 0 u.tokens p ↔ Tree.Border 0 t.tokens p)
  text : bytes u.text = replaced ss (bytes t.text)

/-- A tree is as wide as its text has bytes. -/
theorem width_eq_length (t : Tree) : t.width = (bytes t.text).length := by
  rw [Tree.width_eq.1 t]
  rfl

/-- One splice as a change of bytes. -/
theorem bytes_of_swapped {s : Splice} {xs ys : Stored}
    (h : Tree.Swapped 0 s.span.start s.span.stop (Tree.tokensAll s.replacement.elements) xs ys) :
    bytes (Tree.textOf ys) = swapped (bytes (Tree.textOf xs)) s := by
  obtain ⟨before, cut, after, rest, rfl, rfl, hstart, hstop, -, hsolid⟩ := h
  have htext : Tree.textOf (Tree.tokensAll s.replacement.elements ++ rest) =
      s.replacement.text ++ Tree.textOf after := by
    rw [Tree.textOf_append, Tree.textOf_congr hsolid]
    rfl
  have hbefore : (bytes (Tree.textOf before)).length = s.span.start := by
    rw [← hstart, Nat.zero_add]
    rfl
  have hcut : (bytes (Tree.textOf before) ++ bytes (Tree.textOf cut)).length = s.span.stop := by
    rw [List.length_append, hbefore, ← hstop]
    rfl
  rw [swapped, Tree.textOf_append before, Tree.textOf_append before, Tree.textOf_append cut, htext]
  simp only [bytes_append]
  rw [List.take_left' hbefore, ← List.append_assoc, ← List.append_assoc, List.drop_left' hcut]

/-- A further splice, before all that are done. -/
theorem Spliced.cons {t u v : Tree} {s : Splice} {ss : List Splice} (hu : Spliced t ss u)
    (hordered : s.span.Ordered) (hwithin : s.span.stop ≤ t.width)
    (hss : ∀ t ∈ ss, s.span.stop ≤ t.span.start) (hv : u.splice s = .ok v) :
    Spliced t (s :: ss) v := by
  have hwidth : s.span.stop ≤ u.width := by
    rw [width_eq_length, hu.text]
    exact le_length_replaced hss (width_eq_length t ▸ hwithin)
  have hexact := Tree.splice_exact hu.node s hordered hwidth
  have hswapped : Tree.Swapped 0 s.span.start s.span.stop
      (Tree.tokensAll s.replacement.elements) u.tokens v.tokens := by
    simpa [Tree.tokensAll] using hexact.sound [v] (by rw [hv]; rfl)
  have hstart : ∀ t ∈ ss, s.span.start ≤ t.span.start := fun t ht =>
    Nat.le_trans hordered (hss t ht)
  refine ⟨Tree.splice_isNode hv, fun r hr => ?_, fun p hp hbefore => ?_, ?_⟩
  · rcases List.mem_cons.1 hr with rfl | hr
    · obtain ⟨hborder, hborder'⟩ := hswapped.borders
      exact ⟨(hu.kept _ (Nat.le_trans hordered hwithin) hstart).1 hborder,
        (hu.kept _ hwithin hss).1 hborder'⟩
    · exact hu.borders r hr
  · rw [hswapped.border_iff (hbefore s List.mem_cons_self)]
    exact hu.kept p hp fun r hr => hbefore r (List.mem_cons_of_mem s hr)
  · have hwithin : s.span.stop ≤ (bytes t.text).length := width_eq_length t ▸ hwithin
    rw [replaced_cons hordered hwithin hss, ← hu.text]
    exact bytes_of_swapped hswapped

/-- Ordered splices that do not clash are applied one after the other, if and only if they start and
end between tokens. -/
theorem spliceAll_exact {t : Tree} (hnode : t.isNode = true) {ss : List Splice}
    (hordered : ∀ s ∈ ss, s.span.Ordered) (hwithin : ∀ s ∈ ss, s.span.stop ≤ t.width)
    (hclash : ss.Pairwise (fun s t => clash s.span t.span = false)) :
    (∀ u, spliceAll t ss = .ok u → Spliced t ss u) ∧
      ((∀ s ∈ ss, Tree.Border 0 t.tokens s.span.start ∧ Tree.Border 0 t.tokens s.span.stop) →
        ∃ u, spliceAll t ss = .ok u) := by
  induction ss with
  | nil =>
      refine ⟨fun u hu => ?_, fun _ => ⟨t, rfl⟩⟩
      cases hu
      exact ⟨hnode, by simp, fun _ _ _ => Iff.rfl, (replaced_nil _).symm⟩
  | cons s ss ih =>
      obtain ⟨hfirst, hrest⟩ := List.pairwise_cons.1 hclash
      have hss : ∀ t ∈ ss, s.span.stop ≤ t.span.start := fun t ht =>
        ((clash_eq_false_iff _ _).1 (hfirst t ht)).1
      have hs := hordered s List.mem_cons_self
      have hstop := hwithin s List.mem_cons_self
      obtain ⟨hsound, htotal⟩ := ih (fun r hr => hordered r (List.mem_cons_of_mem s hr))
        (fun r hr => hwithin r (List.mem_cons_of_mem s hr)) hrest
      refine ⟨fun v hv => ?_, fun hborders => ?_⟩
      · obtain ⟨u, hu, hv⟩ := Tree.bind_eq_ok hv
        exact (hsound u hu).cons hs hstop hss hv
      · obtain ⟨u, hu⟩ := htotal fun r hr => hborders r (List.mem_cons_of_mem s hr)
        have hspliced := hsound u hu
        obtain ⟨hborder, hborder'⟩ := hborders s List.mem_cons_self
        have hwidth : s.span.stop ≤ u.width := by
          rw [width_eq_length, hspliced.text]
          exact le_length_replaced hss (width_eq_length t ▸ hstop)
        have hexact := Tree.splice_exact hspliced.node s hs hwidth
        obtain ⟨vs, hvs⟩ := hexact.total
          ((hspliced.kept _ (Nat.le_trans hs hstop)
            fun t ht => Nat.le_trans hs (hss t ht)).2 hborder)
          ((hspliced.kept _ hstop hss).2 hborder')
        obtain ⟨v, hv, -⟩ := Tree.map_eq_ok hvs
        exact ⟨v, by rw [spliceAll, hu]; exact hv⟩

/-! ## Whole patches -/

/-- A patch made for the document is accepted exactly if its sorted splices do not clash and end
within the text. -/
theorem validate_eq_ok_iff {p : Patch} {d : Document} (hversion : p.version = d.version)
    {sorted : List Splice} :
    p.validate d = .ok sorted ↔ sorted = sort p.splices ∧ firstClash (sort p.splices) = none ∧
      ∀ s ∈ p.splices, s.span.stop ≤ d.length := by
  have hwithin : (sort p.splices).find? (fun s => d.length < s.span.stop) = none ↔
      ∀ s ∈ p.splices, s.span.stop ≤ d.length := by
    simp only [List.find?_eq_none, (sort_perm p.splices).mem_iff, decide_eq_true_eq, Nat.not_lt]
  have hvalidate : p.validate d = (p.ordered >>= fun sorted =>
      (sorted.find? (fun s => d.length < s.span.stop)).elim (.ok sorted)
        fun s => .error (.misaligned s.span)) := by
    unfold validate
    rw [hversion, bne_self_eq_false]
    show (p.ordered >>= _) = _
    congr 1
    funext sorted
    cases sorted.find? (fun s => d.length < s.span.stop) <;> rfl
  rw [hvalidate, ← hwithin]
  cases hclash : firstClash (sort p.splices) with
  | some pair =>
      have hordered : p.ordered = .error (.overlappingEdits pair.1 pair.2) := by
        simp only [ordered, hclash]
      simp [hordered, bind, Except.bind]
  | none =>
      have hordered : p.ordered = .ok (sort p.splices) := by simp only [ordered, hclash]
      rw [hordered]
      cases hfind : (sort p.splices).find? (fun s => d.length < s.span.stop) with
      | some s => simp [bind, Except.bind, hfind]
      | none => simp [bind, Except.bind, hfind, eq_comm]

/-- A patch that is accepted was made for the document. -/
theorem version_of_validate {p : Patch} {d : Document} {sorted : List Splice}
    (h : p.validate d = .ok sorted) : p.version = d.version := by
  unfold validate at h
  split at h
  · cases h
  · next hsame => exact (by simpa using hsame : d.version = p.version).symm

/-! ## Where new text starts -/

/-- Without splices nothing grows. -/
@[simp] theorem totalGrowth_nil : totalGrowth [] = 0 := rfl

/-- The growth of the first splice, and that of the others. -/
@[simp] theorem totalGrowth_cons (s : Splice) (ss : List Splice) :
    totalGrowth (s :: ss) = s.growth + totalGrowth ss := rfl

/-- The growth of a patch does not depend on the order of its splices. -/
theorem totalGrowth_perm {ss ts : List Splice} (h : ss.Perm ts) :
    totalGrowth ss = totalGrowth ts := by
  induction h with
  | nil => rfl
  | cons s _ ih => rw [totalGrowth_cons, totalGrowth_cons, ih]
  | swap s t us => exact Int.add_left_comm _ _ _
  | trans _ _ hst htu => exact hst.trans htu

/-- The annotations of ordered splices in the new text, wherever that starts. -/
def placed : Int → List Splice → List Annotation
  | _, [] => []
  | growth, s :: ss =>
    s.replacement.annotations.map (·.shift ((s.span.start : Int) + growth).toNat)
      ++ placed (growth + s.growth) ss

/-- The starts of ordered splices, each moved by the growth before it, are offsets. -/
def Reachable : Int → List Splice → Prop
  | _, [] => True
  | growth, s :: ss =>
    (0 ≤ (s.span.start : Int) + growth ∧
      (s.span.start : Int) + growth ≤ (max s.span.start maxOffset : Nat)) ∧
    Reachable (growth + s.growth) ss

/-- A moved start is an offset if it is not negative and lies behind neither the greatest offset
nor its old place, whichever is greater. -/
theorem moved?_eq_some_iff {start n : Nat} {growth : Int} :
    moved? start growth = some n ↔ (0 ≤ (start : Int) + growth ∧
      (start : Int) + growth ≤ (max start maxOffset : Nat)) ∧ ((start : Int) + growth).toNat = n := by
  simp only [moved?, Bool.and_eq_true, decide_eq_true_eq, Option.ite_none_right_eq_some,
    Option.some.injEq]

/-- **What is placed** is what the splices mark, as long as all of it can be reached. -/
theorem place_eq_ok_iff {growth : Int} {ss : List Splice} {annotations : List Annotation} :
    place growth ss = .ok annotations ↔
      Reachable growth ss ∧ annotations = placed growth ss := by
  induction ss generalizing growth annotations with
  | nil => simp [place, placed, Reachable, eq_comm]
  | cons s ss ih =>
      rw [place, Reachable, placed]
      cases hmoved : moved? s.span.start growth with
      | none =>
          constructor
          · intro h
            cases h
          · rintro ⟨⟨hstart, -⟩, -⟩
            have hsome := moved?_eq_some_iff.2 ⟨hstart, rfl⟩
            rw [hmoved] at hsome
            cases hsome
      | some start =>
          obtain ⟨hstart, rfl⟩ := moved?_eq_some_iff.1 hmoved
          constructor
          · intro h
            obtain ⟨rest, hrest, h⟩ := Tree.bind_eq_ok h
            obtain ⟨hreach, rfl⟩ := ih.1 hrest
            exact ⟨⟨hstart, hreach⟩, (Except.ok.inj h).symm⟩
          · rintro ⟨⟨-, hreach⟩, rfl⟩
            rw [ih.2 ⟨hreach, rfl⟩]
            rfl

/-- The first splice stays where it is, so one splice alone can always be reached. -/
theorem reachable_singleton (s : Splice) : Reachable 0 [s] := by
  simp only [Reachable, and_true]
  omega

/-- A splice takes away no more than its span. -/
theorem neg_length_le_growth (s : Splice) : -(s.span.length : Int) ≤ s.growth := by
  rw [Splice.growth]
  omega

/-- Behind text that only shrinks everything can be reached, so at most the last splice may grow. -/
theorem reachable_of_shrinking {ss : List Splice} {x : Nat} {growth : Int}
    (hgrowth : growth ≤ 0) (hx : 0 ≤ (x : Int) + growth) (hbehind : ∀ s ∈ ss, x ≤ s.span.start)
    (hordered : ∀ s ∈ ss, s.span.Ordered)
    (hapart : ss.Pairwise fun s t => s.span.stop ≤ t.span.start)
    (hshrinks : ∀ s ∈ ss.dropLast, s.growth ≤ 0) : Reachable growth ss := by
  induction ss generalizing x growth with
  | nil => trivial
  | cons s ss ih =>
      obtain ⟨hfirst, hrest⟩ := List.pairwise_cons.1 hapart
      obtain ⟨hxs, -⟩ := List.forall_mem_cons.1 hbehind
      obtain ⟨hs, hss⟩ := List.forall_mem_cons.1 hordered
      refine ⟨by omega, ?_⟩
      cases ss with
      | nil => trivial
      | cons t ts =>
          rw [List.dropLast_cons_cons] at hshrinks
          obtain ⟨hshrink, hmore⟩ := List.forall_mem_cons.1 hshrinks
          have htaken := neg_length_le_growth s
          have hspan : s.span.length = s.span.stop - s.span.start := rfl
          unfold Span.Ordered at hs
          exact ih (x := s.span.stop) (by omega) (by omega) hfirst hss hrest hmore

/-- Splices behind an offset can only take away what stands behind it. -/
theorem neg_le_totalGrowth {ss : List Splice} {x length : Nat} (hx : x ≤ length)
    (hbehind : ∀ s ∈ ss, x ≤ s.span.start) (hordered : ∀ s ∈ ss, s.span.Ordered)
    (hwithin : ∀ s ∈ ss, s.span.stop ≤ length)
    (hapart : ss.Pairwise fun s t => s.span.stop ≤ t.span.start) :
    -((length : Int) - x) ≤ totalGrowth ss := by
  induction ss generalizing x with
  | nil =>
      rw [totalGrowth_nil]
      omega
  | cons s ss ih =>
      obtain ⟨hfirst, hrest⟩ := List.pairwise_cons.1 hapart
      obtain ⟨hxs, -⟩ := List.forall_mem_cons.1 hbehind
      obtain ⟨hs, hss⟩ := List.forall_mem_cons.1 hordered
      obtain ⟨hstop, hstops⟩ := List.forall_mem_cons.1 hwithin
      have hih := ih hstop hfirst hss hstops hrest
      have htaken := neg_length_le_growth s
      have hspan : s.span.length = s.span.stop - s.span.start := rfl
      unfold Span.Ordered at hs
      rw [totalGrowth_cons]
      omega

/-- **New text starts within the new text**, so it can be reached where all of the new text can. -/
theorem reachable_of_length {ss : List Splice} {x length : Nat} {growth : Int}
    (hx : 0 ≤ (x : Int) + growth) (hbehind : ∀ s ∈ ss, x ≤ s.span.start)
    (hordered : ∀ s ∈ ss, s.span.Ordered) (hwithin : ∀ s ∈ ss, s.span.stop ≤ length)
    (hapart : ss.Pairwise fun s t => s.span.stop ≤ t.span.start)
    (hlength : (length : Int) + (growth + totalGrowth ss) ≤ maxOffset) : Reachable growth ss := by
  induction ss generalizing x growth with
  | nil => trivial
  | cons s ss ih =>
      obtain ⟨hfirst, hrest⟩ := List.pairwise_cons.1 hapart
      obtain ⟨hxs, -⟩ := List.forall_mem_cons.1 hbehind
      obtain ⟨hs, hss⟩ := List.forall_mem_cons.1 hordered
      obtain ⟨hstop, hstops⟩ := List.forall_mem_cons.1 hwithin
      have htaken := neg_le_totalGrowth (Nat.le_trans hs hstop)
        (List.forall_mem_cons.2 ⟨Nat.le_refl _, fun t ht => Nat.le_trans hs (hfirst t ht)⟩)
        hordered hwithin hapart
      have hspan : s.span.length = s.span.stop - s.span.start := rfl
      have hgrowth := neg_length_le_growth s
      unfold Span.Ordered at hs
      rw [totalGrowth_cons] at hlength htaken
      refine ⟨by omega, ih (x := s.span.stop) (by omega) hfirst hss hstops hrest (by omega)⟩

/-- The trees that a patch makes, the last splice first, are short enough for all of their text to be
reached by offsets. -/
def Fits (p : Patch) (d : Document) : Prop :=
  ∀ ss ∈ (sort p.splices).tails, (d.length : Int) + totalGrowth ss ≤ maxOffset

/-- What fits at every step does so at the end. -/
theorem Fits.total {p : Patch} {d : Document} (h : p.Fits d) :
    (d.length : Int) + totalGrowth p.splices ≤ maxOffset := by
  rw [← totalGrowth_perm (sort_perm p.splices)]
  exact h _ ((List.mem_tails _ _).2 (List.suffix_refl _))

/-- **In a tree that fits, new text starts at an offset.** -/
theorem reachable_of_fits {ss : List Splice} {length : Nat} (hordered : ∀ s ∈ ss, s.span.Ordered)
    (hwithin : ∀ s ∈ ss, s.span.stop ≤ length)
    (hapart : ss.Pairwise fun s t => clash s.span t.span = false)
    (hlength : (length : Int) + totalGrowth ss ≤ maxOffset) : Reachable 0 ss :=
  reachable_of_length (x := 0) (Int.le_refl 0) (fun _ _ => Nat.zero_le _) hordered hwithin
    (hapart.imp fun h => ((clash_eq_false_iff _ _).1 h).1) (by rwa [Int.zero_add])

/-- Of what fits, offsets reach across each replacement. -/
theorem Fits.length_le {p : Patch} {d : Document} (h : p.Fits d)
    (hordered : ∀ s ∈ p.splices, s.span.Ordered) (hwithin : ∀ s ∈ p.splices, s.span.stop ≤ d.length)
    (hapart : (sort p.splices).Pairwise fun s t => s.span.stop ≤ t.span.start) :
    ∀ s ∈ p.splices, s.replacement.length ≤ maxOffset := by
  have hperm := sort_perm p.splices
  intro s hs
  obtain ⟨front, back, hsplit⟩ := List.append_of_mem (hperm.mem_iff.2 hs)
  have hback : ∀ t ∈ back, t ∈ p.splices := fun t ht =>
    hperm.mem_iff.1 (by rw [hsplit]; simp [ht])
  rw [hsplit] at hapart
  obtain ⟨hbehind, hapart⟩ := List.pairwise_cons.1 (List.pairwise_append.1 hapart).2.1
  -- what comes behind the splice takes away no more than stands there
  have htaken := neg_le_totalGrowth (hwithin s hs) hbehind (fun t ht => hordered t (hback t ht))
    (fun t ht => hwithin t (hback t ht)) hapart
  have hlength := h (s :: back) ((List.mem_tails _ _).2 ⟨front, hsplit.symm⟩)
  have hspan : s.span.length = s.span.stop - s.span.start := rfl
  have hs : s.span.start ≤ s.span.stop := hordered s hs
  rw [totalGrowth_cons, Splice.growth] at hlength
  omega

/-- A patch that applies does so splice by splice. -/
theorem apply_ok {p : Patch} {d : Document} {stamp : Nat} {o : Outcome}
    (h : p.apply d stamp = .ok o) : ∃ sorted, p.validate d = .ok sorted ∧
      spliceAll d.tree sorted = .ok o.document.tree ∧ o.annotations = placed 0 sorted := by
  unfold apply at h
  obtain ⟨sorted, hsorted, h⟩ := Tree.bind_eq_ok h
  obtain ⟨tree, htree, h⟩ := Tree.bind_eq_ok h
  obtain ⟨annotations, hplace, h⟩ := Tree.bind_eq_ok h
  obtain rfl := Except.ok.inj h
  exact ⟨sorted, hsorted, htree, (place_eq_ok_iff.1 hplace).2⟩

/-- A patch whose splices can be made, and whose new text can be reached, applies. -/
theorem apply_eq_ok {p : Patch} {d : Document} {sorted : List Splice} {tree : Tree}
    (hvalid : p.validate d = .ok sorted) (htree : spliceAll d.tree sorted = .ok tree)
    (hreach : Reachable 0 sorted) (stamp : Nat) :
    p.apply d stamp = .ok ⟨⟨tree, [], stamp, if sorted.isEmpty then d.origin else stamp⟩,
      placed 0 sorted⟩ := by
  simp only [apply, hvalid, htree, place_eq_ok_iff.2 ⟨hreach, rfl⟩, bind, Except.bind]
  rfl

/-- A patch of one splice makes that splice and keeps what it marks. -/
theorem apply_single {version : Nat} {s : Splice} {d : Document} {stamp : Nat} {o : Outcome}
    (h : (⟨version, [s]⟩ : Patch).apply d stamp = .ok o) :
    s.span.stop ≤ d.length ∧ d.tree.splice s = .ok o.document.tree ∧
      o.annotations = s.replacement.annotations.map (·.shift s.span.start) := by
  obtain ⟨sorted, hvalid, hsplices, hplaced⟩ := apply_ok h
  obtain ⟨rfl, -, hwithin⟩ := (validate_eq_ok_iff (version_of_validate hvalid)).1 hvalid
  refine ⟨hwithin s List.mem_cons_self, hsplices, hplaced.trans ?_⟩
  simp [sort, sortBy, insertBy, placed]

/-- Splices with text between them are sorted in one way only. -/
theorem sort_of_apart {splices ss : List Splice} (hperm : splices.Perm ss)
    (hordered : ∀ s ∈ ss, s.span.Ordered)
    (hapart : ss.Pairwise (fun s t => s.span.stop < t.span.start)) : sort splices = ss := by
  have hsorted : ss.Pairwise (fun s t => spanLE s.span t.span = true) := by
    refine hapart.imp_of_mem fun {s t} hs ht hst => ?_
    rw [spanLE_iff]
    have : s.span.start ≤ s.span.stop := hordered s hs
    omega
  have hsame := (sort_perm splices).trans hperm
  refine List.Perm.eq_of_pairwise (fun s t hs ht hst hts => ?_) (sort_sorted splices) hsorted hsame
  by_contra hne
  have hdistinct := related_of_ne hapart (hsame.mem_iff.1 hs) ht hne
  have : s.span.start ≤ s.span.stop := hordered s (hsame.mem_iff.1 hs)
  have : t.span.start ≤ t.span.stop := hordered t ht
  rw [spanLE_iff] at hst hts
  omega

/-- Splices with text between them can be given in any order. -/
theorem apply_of_apart {d : Document} {splices ss : List Splice} (hperm : splices.Perm ss)
    (hordered : ∀ s ∈ ss, s.span.start ≤ s.span.stop) (hwithin : ∀ s ∈ ss, s.span.stop ≤ d.length)
    (hapart : ss.Pairwise (fun s t => s.span.stop < t.span.start)) {tree : Tree}
    (htree : spliceAll d.tree ss = .ok tree) (hreach : Reachable 0 ss) (stamp : Nat) :
    (⟨d.version, splices⟩ : Patch).apply d stamp =
      .ok ⟨⟨tree, [], stamp, if ss.isEmpty then d.origin else stamp⟩, placed 0 ss⟩ := by
  have hsort : sort splices = ss := sort_of_apart hperm hordered hapart
  have hclash : firstClash ss = none := by
    refine (firstClash_eq_none_iff hordered).2 ?_
    refine hapart.imp_of_mem fun {s t} hs ht hst => ?_
    rw [clash_eq_false_iff]
    have := hordered s hs
    omega
  have hvalid : (⟨d.version, splices⟩ : Patch).validate d = .ok ss :=
    (validate_eq_ok_iff rfl).2
      ⟨hsort.symm, by rw [hsort]; exact hclash, fun s hs => hwithin s (hperm.mem_iff.1 hs)⟩
  exact apply_eq_ok hvalid htree hreach stamp

end Patch

end CodeMend

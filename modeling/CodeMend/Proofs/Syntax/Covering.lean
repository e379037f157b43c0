import CodeMend.Proofs.Syntax.Sites
import CodeMend.Syntax.Locate

/-!
# Sites found by their span

The sites of a tree are closed under going up and down (`subtree_trans`, `ancestors_mem`).  A site
lies within the span of every site above it, and trees side by side do not overlap; so a descent by
a span that is not empty comes past the site whose span it is (`mem_ancestors_covering`).  A node that
has a token with text right below it is wider than each of the nodes below it, so the search by its
span finds the node itself (`findNode?_span`).
-/

namespace CodeMend.Site

open Tree

/-! ## Up and down -/

/-- A site is below itself. -/
theorem mem_subtree_self (s : Site) : s ∈ s.subtree := by
  obtain ⟨tree, start, above, origin⟩ := s
  cases tree with
  | token k text => exact List.mem_cons_self
  | node k cs => exact List.mem_cons_self

/-- What lies below a site lies below whatever the site lies below. -/
theorem subtree_trans :
    (∀ t origin here above, ∀ s ∈ subtreeOf origin here above t,
      ∀ r ∈ s.subtree, r ∈ subtreeOf origin here above t) ∧
    ∀ ts origin k start above here before,
      ∀ s ∈ subtreesOf origin k start above here before ts,
        ∀ r ∈ s.subtree, r ∈ subtreesOf origin k start above here before ts := by
  apply induct
  · intro k text origin here above s hs r hr
    rw [subtreeOf, List.mem_singleton] at hs
    rw [hs] at hr
    exact hr
  · intro k cs ih origin here above s hs r hr
    rw [subtreeOf] at hs
    rcases List.mem_cons.1 hs with rfl | hs
    · exact hr
    · exact List.mem_cons_of_mem _ (ih origin k here above here [] s hs r hr)
  · intro origin k start above here before s hs
    simp [subtreesOf] at hs
  · intro t ts ht hts origin k start above here before s hs r hr
    rw [subtreesOf] at hs ⊢
    rcases List.mem_append.1 hs with hs | hs
    · exact List.mem_append_left _ (ht _ _ _ s hs r hr)
    · exact List.mem_append_right _ (hts _ _ _ _ _ _ s hs r hr)

/-- The sites of a row are sites of the trees in it. -/
theorem mem_subtreesOf_of_mem_row {origin : Nat} {k : Kind} {start : Nat} {above : List Frame}
    {here : Nat} {before ts : List Tree} {c : Site}
    (h : c ∈ row origin k start above here before ts) :
    c ∈ subtreesOf origin k start above here before ts := by
  induction ts generalizing here before with
  | nil => simp [row] at h
  | cons t ts ih =>
      rw [subtreesOf]
      rcases List.mem_cons.1 (by simpa only [row] using h) with rfl | h
      · exact List.mem_append_left _ (mem_subtree_self _)
      · exact List.mem_append_right _ (ih h)

/-- A child is below its node. -/
theorem mem_subtree_of_mem_children {s c : Site} (h : c ∈ s.children) : c ∈ s.subtree := by
  obtain ⟨tree, start, above, origin⟩ := s
  cases tree with
  | token k text => simp [children, row, Tree.children] at h
  | node k cs => exact List.mem_cons_of_mem _ (mem_subtreesOf_of_mem_row h)

/-- The sites above a site of a tree lie in the tree or above it. -/
theorem ancestors_cases :
    (∀ t origin here above, ∀ s ∈ subtreeOf origin here above t, ∀ p ∈ s.ancestors,
      p ∈ subtreeOf origin here above t ∨ p ∈ climb origin t above) ∧
    ∀ ts origin k start above here before,
      ∀ s ∈ subtreesOf origin k start above here before ts, ∀ p ∈ s.ancestors,
        p ∈ subtreesOf origin k start above here before ts ∨
          p = ⟨.node k (before.reverse ++ ts), start, above, origin⟩ ∨
          p ∈ climb origin (.node k (before.reverse ++ ts)) above := by
  apply induct
  · intro k text origin here above s hs p hp
    rw [subtreeOf, List.mem_singleton] at hs
    subst hs
    rcases List.mem_cons.1 hp with rfl | hp
    · exact Or.inl List.mem_cons_self
    · exact Or.inr hp
  · intro k cs ih origin here above s hs p hp
    rw [subtreeOf] at hs ⊢
    rcases List.mem_cons.1 hs with rfl | hs
    · rcases List.mem_cons.1 hp with rfl | hp
      · exact Or.inl List.mem_cons_self
      · exact Or.inr hp
    · rcases ih origin k here above here [] s hs p hp with hin | rfl | habove
      · exact Or.inl (List.mem_cons_of_mem _ hin)
      · exact Or.inl List.mem_cons_self
      · exact Or.inr habove
  · intro origin k start above here before s hs
    simp [subtreesOf] at hs
  · intro t ts ht hts origin k start above here before s hs p hp
    rw [subtreesOf] at hs ⊢
    rcases List.mem_append.1 hs with hs | hs
    · rcases ht _ _ _ s hs p hp with hin | habove
      · exact Or.inl (List.mem_append_left _ hin)
      · exact Or.inr (List.mem_cons.1 habove)
    · have hcases := hts _ _ _ _ _ _ s hs p hp
      rw [List.reverse_cons, List.append_assoc, List.singleton_append] at hcases
      exact hcases.imp_left (List.mem_append_right _)

/-- The sites above a site of a whole tree are sites of that tree. -/
theorem ancestors_mem {origin : Nat} {t : Tree} {s p : Site} (hs : s ∈ (top origin t).subtree)
    (hp : p ∈ s.ancestors) : p ∈ (top origin t).subtree :=
  (ancestors_cases.1 t origin 0 [] s hs p hp).resolve_right (by simp [climb])

/-- The parent is one of the ancestors. -/
theorem parent_mem_ancestors {s p : Site} (h : s.parent? = some p) : p ∈ s.ancestors := by
  obtain ⟨tree, start, above, origin⟩ := s
  cases above with
  | nil => simp [parent?] at h
  | cons f fs =>
      obtain rfl := Option.some.inj h
      exact List.mem_cons_of_mem _ List.mem_cons_self

/-- The siblings of a site are in the tree. -/
theorem leftSiblings_mem {origin : Nat} {t : Tree} {s r : Site}
    (hs : s ∈ (top origin t).subtree) (hr : r ∈ s.leftSiblings) : r ∈ (top origin t).subtree := by
  unfold leftSiblings at hr
  split at hr
  · simp at hr
  · next p hp =>
    have hchild : r ∈ p.children := (List.takeWhile_subset _) (List.mem_reverse.1 hr)
    have hparent := ancestors_mem hs (parent_mem_ancestors hp)
    exact subtree_trans.1 t origin 0 [] p hparent r (mem_subtree_of_mem_children hchild)

/-! ## Spans -/

/-- A site ends where its text does. -/
theorem stop_eq (s : Site) : s.stop = s.start + s.tree.width := rfl

/-- A site lies within the trees it lies below. -/
theorem subtree_within :
    (∀ t origin here above, ∀ s ∈ subtreeOf origin here above t,
      here ≤ s.start ∧ s.stop ≤ here + t.width) ∧
    ∀ ts origin k start above here before,
      ∀ s ∈ subtreesOf origin k start above here before ts,
        here ≤ s.start ∧ s.stop ≤ here + widthAll ts := by
  apply induct
  · intro k text origin here above s hs
    rw [subtreeOf, List.mem_singleton] at hs
    rw [hs]
    exact ⟨Nat.le_refl _, Nat.le_refl _⟩
  · intro k cs ih origin here above s hs
    rw [subtreeOf] at hs
    rcases List.mem_cons.1 hs with rfl | hs
    · exact ⟨Nat.le_refl _, Nat.le_refl _⟩
    · exact ih origin k here above here [] s hs
  · intro origin k start above here before s hs
    simp [subtreesOf] at hs
  · intro t ts ht hts origin k start above here before s hs
    rw [subtreesOf] at hs
    rw [widthAll]
    rcases List.mem_append.1 hs with hs | hs
    · obtain ⟨hstart, hstop⟩ := ht _ _ _ s hs
      exact ⟨hstart, by omega⟩
    · obtain ⟨hstart, hstop⟩ := hts _ _ _ _ _ _ s hs
      exact ⟨by omega, by omega⟩

/-- Children follow each other. -/
theorem children_pairwise (s : Site) : s.children.Pairwise (fun a b => a.stop ≤ b.start) := by
  have hrow (ts : List Tree) : ∀ here before, (row s.origin s.kind s.start s.above here before ts).Pairwise
      (fun a b => a.stop ≤ b.start) := by
    induction ts with
    | nil => exact fun _ _ => List.Pairwise.nil
    | cons t ts ih =>
        intro here before
        refine List.pairwise_cons.2 ⟨fun c hc => ?_, ih _ _⟩
        exact (subtree_within.2 ts _ _ _ _ _ _ c (mem_subtreesOf_of_mem_row hc)).1
  exact hrow s.tree.children s.start []

/-- A descent by a span ends at a site of the tree. -/
theorem coverIn_mem (span : Span) :
    (∀ t origin here above, coverIn origin span here above t ∈ subtreeOf origin here above t) ∧
    ∀ ts origin k start above here before,
      ∀ s ∈ coverAmong origin span k start above here before ts,
        s ∈ subtreesOf origin k start above here before ts := by
  apply induct
  · intro k text origin here above
    exact List.mem_cons_self
  · intro k cs ih origin here above
    rw [subtreeOf, coverIn]
    cases hcover : coverAmong origin span k here above here [] cs with
    | none => exact List.mem_cons_self
    | some s => exact List.mem_cons_of_mem _ (ih _ _ _ _ _ _ s hcover)
  · intro origin k start above here before s hs
    simp [coverAmong] at hs
  · intro t ts ht hts origin k start above here before s hs
    rw [subtreesOf]
    rw [coverAmong] at hs
    split at hs
    · obtain rfl := Option.some.inj hs
      exact List.mem_append_left _ (ht _ _ _)
    · exact List.mem_append_right _ (hts _ _ _ _ _ _ s hs)

/-- A stretch covers a span if it does not start behind it nor end before it. -/
theorem covers_ofLength_iff {here width : Nat} {span : Span} :
    (Span.ofLength here width).covers span = true ↔ here ≤ span.start ∧ span.stop ≤ here + width := by
  simp only [Span.covers, Span.ofLength, Bool.and_eq_true]
  exact and_congr decide_eq_true_iff decide_eq_true_iff

/-- The same for the span of a site. -/
theorem covers_iff_le {here width : Nat} {s : Site} :
    (Span.ofLength here width).covers s.span = true ↔ here ≤ s.start ∧ s.stop ≤ here + width :=
  covers_ofLength_iff

/-- A descent by a span that is not empty comes past every site that covers the span. -/
theorem coverIn_above {span : Span} (hspan : span.start < span.stop) :
    (∀ t origin here above, ∀ s ∈ subtreeOf origin here above t, s.span.covers span = true →
      s ∈ (coverIn origin span here above t).ancestors) ∧
    ∀ ts origin k start above here before,
      ∀ s ∈ subtreesOf origin k start above here before ts, s.span.covers span = true →
        ∃ r ∈ coverAmong origin span k start above here before ts, s ∈ r.ancestors := by
  apply induct
  · intro k text origin here above s hs _
    rw [subtreeOf, List.mem_singleton] at hs
    rw [hs]
    exact List.mem_cons_self
  · intro k cs ih origin here above s hs hcovers
    have hs' := hs
    rw [subtreeOf] at hs'
    rcases List.mem_cons.1 hs' with rfl | hs'
    · exact ancestor_of_mem.1 _ _ _ _ _ ((coverIn_mem _).1 _ _ _ _)
    · obtain ⟨r, hr, hbelow⟩ := ih origin k here above here [] s hs' hcovers
      rw [coverIn, Option.mem_def.1 hr]
      exact hbelow
  · intro origin k start above here before s hs
    simp [subtreesOf] at hs
  · intro t ts ht hts origin k start above here before s hs hcovers
    rw [subtreesOf] at hs
    rw [coverAmong]
    obtain ⟨hleft, hright⟩ := covers_ofLength_iff.1 hcovers
    rcases List.mem_append.1 hs with hs | hs
    · obtain ⟨hstart, hstop⟩ := subtree_within.1 _ _ _ _ s hs
      rw [stop_eq] at hstop
      rw [if_pos (covers_ofLength_iff.2 ⟨Nat.le_trans hstart hleft, Nat.le_trans hright hstop⟩)]
      exact ⟨_, rfl, ht _ _ _ s hs hcovers⟩
    · -- the tree ends before the site starts, so it does not cover the span
      have hstart := (subtree_within.2 _ _ _ _ _ _ _ s hs).1
      have hapart : ¬ (Span.ofLength here t.width).covers span = true := by
        rw [covers_ofLength_iff]
        omega
      rw [if_neg hapart]
      exact hts _ _ _ _ _ _ s hs hcovers

/-- **A descent by a span comes past every site that covers it.** -/
theorem covering_above {root s : Site} {span : Span} (hspan : span.start < span.stop)
    (hs : s ∈ root.subtree) (hcovers : s.span.covers span = true) :
    s ∈ (root.covering span).ancestors :=
  (coverIn_above hspan).1 root.tree root.origin root.start root.above s hs hcovers

/-- **A descent by the span of a site comes past the site.** -/
theorem mem_ancestors_covering {origin : Nat} {t : Tree} {s : Site}
    (hs : s ∈ (top origin t).subtree) (hwidth : 0 < s.tree.width) :
    s ∈ ((top origin t).covering s.span).ancestors :=
  covering_above (Nat.lt_add_of_pos_right hwidth) hs (by simp [Span.covers])

/-- The descent by a span stays in the tree. -/
theorem covering_mem (origin : Nat) (t : Tree) (span : Span) :
    (top origin t).covering span ∈ (top origin t).subtree := (coverIn_mem span).1 t origin 0 []

/-! ## The same place -/

/-- The numbers that lead to frames. -/
def pathOf (above : List Frame) : List Nat := above.map (·.before.length)

/-- The path of a site goes on where it leaves the tree; in a row it starts with the number of the
tree. -/
theorem path_of_mem :
    (∀ t origin here above, ∀ s ∈ subtreeOf origin here above t,
      ∃ down, s.path = down ++ pathOf above) ∧
    ∀ ts origin k start above here before,
      ∀ s ∈ subtreesOf origin k start above here before ts,
        ∃ down i, before.length ≤ i ∧ s.path = down ++ i :: pathOf above := by
  apply induct
  · intro k text origin here above s hs
    obtain rfl := List.mem_singleton.1 hs
    exact ⟨[], rfl⟩
  · intro k cs ih origin here above s hs
    rcases List.mem_cons.1 hs with rfl | hs
    · exact ⟨[], rfl⟩
    · obtain ⟨down, i, -, hpath⟩ := ih origin k here above here [] s hs
      exact ⟨down ++ [i], by simp [hpath]⟩
  · intro origin k start above here before s hs
    cases hs
  · intro t ts ht hts origin k start above here before s hs
    rcases List.mem_append.1 hs with hs | hs
    · obtain ⟨down, hpath⟩ := ht origin here _ s hs
      exact ⟨down, before.length, Nat.le_refl _, hpath⟩
    · obtain ⟨down, i, hi, hpath⟩ := hts origin k start above _ (t :: before) s hs
      exact ⟨down, i, Nat.le_of_succ_le hi, hpath⟩

/-- Below a row a path is longer than the path of the row. -/
theorem path_ne_of_mem_row {origin start here : Nat} {k : Kind} {above : List Frame}
    {before ts : List Tree} {s : Site} (hs : s ∈ subtreesOf origin k start above here before ts) :
    s.path ≠ pathOf above := by
  obtain ⟨down, i, -, hpath⟩ := path_of_mem.2 ts origin k start above here before s hs
  intro h
  have hlength := congrArg List.length (hpath.symm.trans h)
  simp only [List.length_append, List.length_cons] at hlength
  omega

/-- The path determines the site. -/
theorem eq_of_path_eq :
    (∀ t origin here above, ∀ s ∈ subtreeOf origin here above t,
      ∀ r ∈ subtreeOf origin here above t, s.path = r.path → s = r) ∧
    ∀ ts origin k start above here before,
      ∀ s ∈ subtreesOf origin k start above here before ts,
        ∀ r ∈ subtreesOf origin k start above here before ts, s.path = r.path → s = r := by
  apply induct
  · intro k text origin here above s hs r hr _
    rw [List.mem_singleton.1 hs, List.mem_singleton.1 hr]
  · intro k cs ih origin here above s hs r hr hpath
    rcases List.mem_cons.1 hs with rfl | hs <;> rcases List.mem_cons.1 hr with rfl | hr
    · rfl
    · exact absurd hpath.symm (path_ne_of_mem_row hr)
    · exact absurd hpath (path_ne_of_mem_row hs)
    · exact ih origin k here above here [] s hs r hr hpath
  · intro origin k start above here before s hs
    cases hs
  · intro t ts ht hts origin k start above here before s hs r hr hpath
    -- the first tree of a row has another number than the trees behind it
    have hapart : ∀ s ∈ subtreeOf origin here (⟨k, start, before, ts⟩ :: above) t,
        ∀ r ∈ subtreesOf origin k start above (here + t.width) (t :: before) ts,
          s.path ≠ r.path := by
      intro s hs r hr hpath
      obtain ⟨down, hdown⟩ := path_of_mem.1 t origin here _ s hs
      obtain ⟨down', i, hi, hdown'⟩ := path_of_mem.2 ts origin k start above _ (t :: before) r hr
      rw [hdown, hdown'] at hpath
      have hnumber := (List.append_inj' hpath (by simp [pathOf])).2
      have hnumber : before.length = i := (List.cons.inj hnumber).1
      simp only [List.length_cons] at hi
      omega
    rcases List.mem_append.1 hs with hs | hs <;> rcases List.mem_append.1 hr with hr | hr
    · exact ht origin here _ s hs r hr hpath
    · exact absurd hpath (hapart s hs r hr)
    · exact absurd hpath.symm (hapart r hr s hs)
    · exact hts origin k start above _ _ s hs r hr hpath

/-- A site is the same place as itself. -/
theorem same_self (s : Site) : s.same s = true := by simp [same]

/-- Being the same place goes both ways. -/
theorem same_comm (s r : Site) : s.same r = r.same s := by
  simp only [same, Bool.beq_comm]

/-- Two sites of a tree are the same place only if they are the same. -/
theorem same_iff {root s r : Site} (hs : s ∈ root.subtree) (hr : r ∈ root.subtree) :
    s.same r = true ↔ s = r := by
  refine ⟨fun h => ?_, fun h => h ▸ same_self s⟩
  have hpath : s.path = r.path := by
    simp only [same, Bool.and_eq_true, beq_iff_eq] at h
    exact h.2
  exact eq_of_path_eq.1 root.tree root.origin root.start root.above s hs r hr hpath

/-! ## Nodes and their children -/

/-- A child of a site of the tree is a site of the tree. -/
theorem mem_subtree_child {root s c : Site} (hs : s ∈ root.subtree) (hc : c ∈ s.children) :
    c ∈ root.subtree :=
  subtree_trans.1 _ _ _ _ s hs c (mem_subtree_of_mem_children hc)

/-- The sites of a row hold the trees of the row. -/
theorem map_tree_row (origin : Nat) (k : Kind) (start : Nat) (above : List Frame) (here : Nat)
    (before ts : List Tree) : (row origin k start above here before ts).map tree = ts := by
  induction ts generalizing here before with
  | nil => rfl
  | cons t ts ih => rw [row, List.map_cons, ih]

/-- The sites of the children hold the children. -/
theorem map_tree_children (s : Site) : s.children.map tree = s.tree.children :=
  map_tree_row _ _ _ _ _ _ _

/-- The frame of a tree of a row leads back to the whole row. -/
theorem parent?_of_mem_row {origin : Nat} {k : Kind} {start : Nat} {above : List Frame} {here : Nat}
    {before ts : List Tree} {c : Site} (h : c ∈ row origin k start above here before ts) :
    c.parent? = some ⟨.node k (before.reverse ++ ts), start, above, origin⟩ := by
  induction ts generalizing here before with
  | nil => simp [row] at h
  | cons t ts ih =>
      rcases List.mem_cons.1 (by simpa only [row] using h) with rfl | h
      · rfl
      · rw [ih h, List.reverse_cons, List.append_assoc, List.singleton_append]

/-- The parent of a child is its node. -/
theorem parent?_of_mem_children {s c : Site} (h : c ∈ s.children) : c.parent? = some s := by
  obtain ⟨tree, start, above, origin⟩ := s
  cases tree with
  | token k text => simp [children, row, Tree.children] at h
  | node k cs => exact parent?_of_mem_row h

/-- The sites above a child are its node and those above that. -/
theorem ancestors_of_parent? {s p : Site} (h : s.parent? = some p) :
    s.ancestors = s :: p.ancestors := by
  obtain ⟨tree, start, above, origin⟩ := s
  cases above with
  | nil => cases h
  | cons f fs =>
      obtain rfl := Option.some.inj h
      rfl

/-- A child is numbered by the children before it. -/
theorem path_of_split {origin : Nat} {k : Kind} {start : Nat} {above : List Frame} {here : Nat}
    {before ts : List Tree} {left right : List Site} {c : Site}
    (h : row origin k start above here before ts = left ++ c :: right) :
    c.path = (before.length + left.length) :: pathOf above := by
  induction ts generalizing here before left with
  | nil => simp [row] at h
  | cons t ts ih =>
      rw [row] at h
      cases left with
      | nil =>
          obtain ⟨rfl, -⟩ := List.cons.inj h
          rfl
      | cons l left =>
          obtain ⟨-, hrest⟩ := List.cons.inj h
          rw [ih hrest, List.length_cons, List.length_cons, Nat.add_right_comm, Nat.add_assoc]

/-- A child is not the same place as one of those before it. -/
theorem not_same_of_split {s c : Site} {left right : List Site} (h : s.children = left ++ c :: right)
    {r : Site} (hr : r ∈ left) : r.same c = false := by
  obtain ⟨first, last, rfl⟩ := List.append_of_mem hr
  have hrpath : r.path = _ := path_of_split (by rw [← children, h, List.append_assoc]; rfl)
  have hcpath : c.path = _ := path_of_split (by rw [← children, h])
  have hne : r.path ≠ c.path := by
    rw [hrpath, hcpath, List.length_append, List.length_cons]
    intro heq
    have := (List.cons.inj heq).1
    omega
  simp [same, hne]

/-- The siblings before a child, nearest first. -/
theorem leftSiblings_of_split {s c : Site} {left right : List Site}
    (h : s.children = left ++ c :: right) : c.leftSiblings = left.reverse := by
  have hleft : ∀ r ∈ left, (!r.same c) = true := fun r hr => by rw [not_same_of_split h hr]; rfl
  have htake : s.children.takeWhile (fun r => !r.same c) = left := by
    rw [h, List.takeWhile_append_of_pos hleft, List.takeWhile_cons, same_self]
    simp
  rw [leftSiblings, parent?_of_mem_children (by rw [h]; simp)]
  exact congrArg List.reverse htake

/-! ## Tokens and widths -/

/-- A token of a row is among its tokens. -/
theorem mem_tokensAll {k : Kind} {spelling : String} {ts : List Tree}
    (h : .token k spelling ∈ ts) : (k, spelling) ∈ tokensAll ts := by
  obtain ⟨left, right, rfl⟩ := List.append_of_mem h
  simp [tokensAll_append, tokensAll, Tree.tokens]

/-- The tokens below a site are tokens of the tree. -/
theorem tokens_subset_of_mem {origin : Nat} {t : Tree} {s : Site}
    (hs : s ∈ (top origin t).subtree) : s.tree.tokens ⊆ t.tokens := by
  obtain ⟨left, right, hleaves⟩ := leaves_of_mem.1 t origin 0 [] s hs
  intro x hx
  rw [← leaves_tokens.1 t origin 0 [], hleaves, List.flatMap_append, List.flatMap_append,
    leaves_eq, leaves_tokens.1]
  exact List.mem_append_right _ (List.mem_append_left _ hx)

/-- The children of a tree are no wider than the tree. -/
theorem widthAll_children_le (t : Tree) : widthAll t.children ≤ t.width := by
  cases t with
  | token k spelling => exact Nat.zero_le _
  | node k cs => exact Nat.le_refl _

/-- A node above a node has a child, which is a node too, that is at least as wide. -/
theorem exists_wide_child {origin : Nat} {t : Tree} {above : List Frame} {p : Site}
    (hnode : t.isNode = true) (h : p ∈ climb origin t above) :
    ∃ c ∈ p.tree.children, c.isNode = true ∧ t.width ≤ c.width := by
  induction above generalizing t with
  | nil => simp [climb] at h
  | cons f fs ih =>
      rcases List.mem_cons.1 h with rfl | h
      · exact ⟨t, by simp [Frame.close, Tree.children], hnode, Nat.le_refl _⟩
      · obtain ⟨c, hc, hcNode, hwide⟩ := ih rfl h
        refine ⟨c, hc, hcNode, Nat.le_trans ?_ hwide⟩
        simp only [Frame.close, width, widthAll_append, widthAll]
        omega

/-- A tree of a row is no wider than the row. -/
theorem width_le_widthAll {c : Tree} {ts : List Tree} (h : c ∈ ts) : c.width ≤ widthAll ts := by
  obtain ⟨left, right, rfl⟩ := List.append_of_mem h
  simp only [widthAll_append, widthAll]
  omega

/-- Two different trees of a row fit into it side by side. -/
theorem width_add_width_le {c d : Tree} {ts : List Tree} (hc : c ∈ ts) (hd : d ∈ ts)
    (hne : c ≠ d) : c.width + d.width ≤ widthAll ts := by
  induction ts with
  | nil => simp at hc
  | cons t ts ih =>
      rw [widthAll]
      rcases List.mem_cons.1 hc with hct | hcts <;> rcases List.mem_cons.1 hd with hdt | hdts
      · exact absurd (hct.trans hdt.symm) hne
      · have := width_le_widthAll hdts
        rw [hct]
        omega
      · have := width_le_widthAll hcts
        rw [hdt]
        omega
      · have := ih hcts hdts
        omega

/-! ## The search by a span -/

/-- The sites above a site of a chain of ancestors come behind it. -/
theorem ancestors_split {s x : Site} {below above : List Site}
    (h : s.ancestors = below ++ x :: above) : x.ancestors = x :: above := by
  obtain ⟨tree, start, frames, origin⟩ := s
  induction below generalizing tree start frames with
  | nil =>
      obtain ⟨rfl, hrest⟩ := List.cons.inj h
      exact h
  | cons b below ih =>
      obtain ⟨-, hrest⟩ := List.cons.inj h
      cases frames with
      | nil => simp [properAncestors, climb] at hrest
      | cons f fs => exact ih _ _ _ hrest

/-- Only nodes have something below them. -/
theorem isNode_of_mem_properAncestors {s p : Site} (h : p ∈ s.properAncestors) :
    p.isNode = true := by
  obtain ⟨tree, start, above, origin⟩ := s
  induction above generalizing tree start with
  | nil => simp [properAncestors, climb] at h
  | cons f fs ih =>
      rcases List.mem_cons.1 h with rfl | h
      · rfl
      · exact ih _ f.start h

/-- What stands above a site is at least as wide. -/
theorem width_le_of_mem_properAncestors {s p : Site} (h : p ∈ s.properAncestors) :
    s.tree.width ≤ p.tree.width := by
  obtain ⟨tree, start, above, origin⟩ := s
  change p ∈ climb origin tree above at h
  induction above generalizing tree with
  | nil => cases h
  | cons f fs ih =>
      have hclose : tree.width ≤ (Frame.close f tree).width :=
        width_le_widthAll (List.mem_append_right _ List.mem_cons_self)
      rcases List.mem_cons.1 h with rfl | h
      · exact hclose
      · exact Nat.le_trans hclose (ih (Frame.close f tree) h)

/-- What a descent by a span ends at covers the span. -/
theorem covers_coverIn (span : Span) :
    (∀ t origin here above, (Span.ofLength here t.width).covers span = true →
      (coverIn origin span here above t).span.covers span = true) ∧
    ∀ ts origin k start above here before,
      ∀ s ∈ coverAmong origin span k start above here before ts, s.span.covers span = true := by
  apply induct
  · intro k text origin here above h
    exact h
  · intro k cs ih origin here above h
    rw [coverIn]
    cases hcover : coverAmong origin span k here above here [] cs with
    | none => exact h
    | some s => exact ih _ _ _ _ _ _ s hcover
  · intro origin k start above here before s hs
    simp [coverAmong] at hs
  · intro t ts ht hts origin k start above here before s hs
    rw [coverAmong] at hs
    split at hs
    · next hcovers =>
      obtain rfl := Option.some.inj hs
      exact ht _ _ _ hcovers
    · exact hts _ _ _ _ _ _ s hs

/-- Of the sites above a site that are looked for, the others lie above the one that is found. -/
theorem mem_ancestors_of_find? {s m n : Site} {accepts : Site → Bool}
    (h : s.ancestors.find? accepts = some n) (hm : m ∈ s.ancestors) (haccepts : accepts m = true) :
    m ∈ n.ancestors := by
  obtain ⟨-, below, above, hsplit, hbelow⟩ := List.find?_eq_some_iff_append.1 h
  rw [ancestors_split hsplit]
  rw [hsplit] at hm
  refine (List.mem_append.1 hm).resolve_left fun hmem => ?_
  have hskipped := hbelow m hmem
  rw [haccepts] at hskipped
  cases hskipped

/-- Only nodes stand above a token. -/
theorem enclosing?_eq {s : Site} (htoken : s.isToken = true) (accepts : Site → Bool) :
    s.enclosing? accepts = s.ancestors.find? (fun n => n.isNode && accepts n) := by
  have hnode : s.isNode = false := by
    simpa [isNode, Tree.isNode, isToken] using htoken
  rw [enclosing?, ancestors, List.find?_cons, hnode, Bool.false_and, ← List.head?_filter,
    ← List.head?_filter]
  refine congrArg List.head? (List.filter_congr fun p hp => ?_)
  rw [isNode_of_mem_properAncestors hp, Bool.true_and]

/-- The search by a span goes up from where the descent ends. -/
theorem findNode?_eq {root : Site} {span : Span} (hcovers : root.span.covers span = true)
    (hspan : span.isEmpty = false) (bias : Bias) :
    root.findNode? span bias false =
      (root.covering span).ancestors.find? (fun n => n.isNode && n.span.covers span) := by
  have hcover : (root.covering span).span.covers span = true :=
    (covers_coverIn span).1 root.tree root.origin root.start root.above hcovers
  simp only [findNode?, hcovers, hspan, Bool.not_true, Bool.false_eq_true, if_false]
  cases htoken : (root.covering span).isToken with
  | true => rw [if_pos rfl, enclosing?_eq htoken]
  | false =>
      have hnode : (root.covering span).isNode = true := by
        simpa [isNode, Tree.isNode, isToken] using htoken
      rw [ancestors, List.find?_cons, hnode, hcover]
      rfl

/-- **A node with a token right below it is found by its span.** -/
theorem findNode?_span {origin : Nat} {t : Tree} {n : Site} (hn : n ∈ (top origin t).subtree)
    (hnode : n.isNode = true) {token : Tree} (htoken : token ∈ n.tree.children)
    (hleaf : token.isNode = false) (hwidth : 0 < token.width) (bias : Bias) :
    (top origin t).findNode? n.span bias false = some n := by
  have hwide : token.width ≤ n.tree.width :=
    Nat.le_trans (width_le_widthAll htoken) (widthAll_children_le _)
  have hcovers : (top origin t).span.covers n.span = true := by
    have hwithin := subtree_within.1 t origin 0 [] n hn
    exact covers_iff_le.2 hwithin
  have hempty : n.span.isEmpty = false := by
    simp only [Span.isEmpty, span, Span.ofLength]
    simp
    omega
  rw [findNode?_eq hcovers hempty]
  have hself : n.span.covers n.span = true := by simp [Span.covers]
  have hmem := mem_ancestors_covering hn (Nat.lt_of_lt_of_le hwidth hwide)
  cases hfind : ((top origin t).covering n.span).ancestors.find?
      (fun m => m.isNode && m.span.covers n.span) with
  | none =>
      have := List.find?_eq_none.1 hfind n hmem
      simp [hnode, hself] at this
  | some x =>
      obtain ⟨hx, -⟩ := List.find?_eq_some_iff_append.1 hfind
      obtain ⟨hxNode, hxCovers⟩ := Bool.and_eq_true_iff.1 hx
      have habove : n ∈ x.ancestors := mem_ancestors_of_find? hfind hmem (by simp [hnode, hself])
      rcases List.mem_cons.1 habove with rfl | habove
      · rfl
      · -- a node below `n` leaves no room for the token
        obtain ⟨c, hc, hcNode, hcWide⟩ := exists_wide_child hxNode habove
        have hne : c ≠ token := by
          rintro rfl
          rw [hcNode] at hleaf
          cases hleaf
        have hfit := width_add_width_le hc htoken hne
        have hall := widthAll_children_le n.tree
        have hin : x.start ≤ n.start ∧ n.stop ≤ x.start + x.tree.width := covers_iff_le.1 hxCovers
        rw [stop_eq] at hin
        omega

/-! ## What is found from spans lies in the tree -/

/-- The token found at an offset is in the tree, whichever neighbour is asked for. -/
theorem mem_of_rawTokenAt? {root s : Site} {offset : Nat} {bias : Bias}
    (h : root.rawTokenAt? offset bias = some s) : s ∈ root.subtree := by
  have htouching {t : Site} (ht : t ∈ root.touching offset) : t ∈ root.subtree :=
    (List.mem_filter.1 (List.mem_filter.1 ht).1).1
  unfold rawTokenAt? at h
  split at h
  · cases hrow : root.touching offset with
    | nil =>
        rw [hrow] at h
        have hlast := (Option.filter_eq_some_iff.1 (show root.lastToken? = some s from h)).1
        exact (List.mem_filter.1 (List.mem_of_getLast? hlast)).1
    | cons t ts =>
        rw [hrow] at h
        refine htouching ?_
        rw [hrow]
        cases bias with
        | following => exact List.mem_of_getLast? h
        | previous =>
            obtain rfl := Option.some.inj h
            exact List.mem_cons_self
  · cases h

/-- The node found by a span is in the tree. -/
theorem mem_of_findNode? {origin : Nat} {t : Tree} {span : Span} {bias : Bias} {n : Site}
    (h : (top origin t).findNode? span bias false = some n) : n ∈ (top origin t).subtree := by
  have hup {s p : Site} (hs : s ∈ (top origin t).subtree) {accepts : Site → Bool}
      (hp : s.enclosing? accepts = some p) : p ∈ (top origin t).subtree :=
    ancestors_mem hs (List.mem_cons_of_mem _ (List.mem_of_find?_eq_some hp))
  unfold findNode? at h
  split at h
  · cases h
  rw [if_neg Bool.false_ne_true] at h
  split at h
  · obtain ⟨token, htoken, h⟩ := Option.bind_eq_some_iff.1 h
    exact hup (mem_of_rawTokenAt? htoken) h
  · dsimp only at h
    split at h
    · exact hup (covering_mem origin t span) h
    · obtain rfl := Option.some.inj h
      exact covering_mem origin t span

end CodeMend.Site

import CodeMend.Proofs.Syntax.Covering

/-!
# Places compared by their routes

The route of a site leads from the root down to it.  Of two sites of a tree one lies above the other,
or their routes part and the one that takes the lower number stands further left (`route_cases`).
For sites with text the order of the offsets is therefore the order of the routes
(`stop_le_start_iff`), whatever the widths of the trees are.
-/

namespace CodeMend.Site

open Tree

/-! ## Routes -/

/-- Do the routes part, and does the first one take the lower number there? -/
def Ahead : List Nat → List Nat → Prop
  | i :: p, j :: q => i < j ∨ i = j ∧ Ahead p q
  | _, _ => False

/-- The numbers that lead from the root to the site. -/
def route (s : Site) : List Nat := s.path.reverse

/-- Of two paths one leads on from the other, or one comes ahead of the other. -/
theorem route_cases (p q : List Nat) : p <+: q ∨ q <+: p ∨ Ahead p q ∨ Ahead q p := by
  induction p generalizing q with
  | nil => exact Or.inl List.nil_prefix
  | cons i p ih =>
      cases q with
      | nil => exact Or.inr (Or.inl List.nil_prefix)
      | cons j q =>
          rcases Nat.lt_trichotomy i j with hlt | rfl | hgt
          · exact Or.inr (Or.inr (Or.inl (Or.inl hlt)))
          · rcases ih q with h | h | h | h
            · exact Or.inl (List.cons_prefix_cons.2 ⟨rfl, h⟩)
            · exact Or.inr (Or.inl (List.cons_prefix_cons.2 ⟨rfl, h⟩))
            · exact Or.inr (Or.inr (Or.inl (Or.inr ⟨rfl, h⟩)))
            · exact Or.inr (Or.inr (Or.inr (Or.inr ⟨rfl, h⟩)))
          · exact Or.inr (Or.inr (Or.inr (Or.inl hgt)))

/-- Behind a common way the routes are compared as they go on. -/
theorem ahead_append (w p q : List Nat) : Ahead (w ++ p) (w ++ q) ↔ Ahead p q := by
  induction w with
  | nil => rfl
  | cons i w ih => simp [Ahead, ih]

/-- A path that leads on from another one comes neither ahead of it nor behind. -/
theorem not_ahead_of_isPrefix {p q : List Nat} (h : p <+: q) : ¬ Ahead p q ∧ ¬ Ahead q p := by
  obtain ⟨more, rfl⟩ := h
  constructor
  · intro hahead
    rw [← List.append_nil p, List.append_assoc, ahead_append] at hahead
    exact hahead
  · intro hahead
    have hahead : Ahead (p ++ more) (p ++ []) := by rwa [List.append_nil]
    rw [ahead_append] at hahead
    cases more <;> exact hahead

/-! ## Routes of sites -/

theorem route_of_mem {t : Tree} {origin here : Nat} {above : List Frame} {s : Site}
    (hs : s ∈ subtreeOf origin here above t) : (pathOf above).reverse <+: s.route := by
  obtain ⟨down, hdown⟩ := path_of_mem.1 t origin here above s hs
  exact ⟨down.reverse, by rw [route, hdown, List.reverse_append]⟩

theorem route_of_mem_row {ts : List Tree} {origin start here : Nat} {k : Kind} {above : List Frame}
    {before : List Tree} {s : Site} (hs : s ∈ subtreesOf origin k start above here before ts) :
    ∃ i down, before.length ≤ i ∧ s.route = (pathOf above).reverse ++ i :: down := by
  obtain ⟨down, i, hi, hdown⟩ := path_of_mem.2 ts origin k start above here before s hs
  exact ⟨i, down.reverse, hi, by simp [route, hdown]⟩

/-- A tree of a row has a lower number than those behind it. -/
theorem route_parts {t : Tree} {ts : List Tree} {origin start here : Nat} {k : Kind}
    {above : List Frame} {before : List Tree} {a b : Site}
    (ha : a ∈ subtreeOf origin here (⟨k, start, before, ts⟩ :: above) t)
    (hb : b ∈ subtreesOf origin k start above (here + t.width) (t :: before) ts) :
    Ahead a.route b.route := by
  obtain ⟨down, hdown⟩ := route_of_mem ha
  obtain ⟨i, down', hi, hroute⟩ := route_of_mem_row hb
  rw [← hdown, hroute]
  simp only [pathOf, List.map_cons, List.reverse_cons, List.append_assoc, List.singleton_append]
  rw [ahead_append]
  exact Or.inl hi

/-- A site that is ahead of another ends before the other starts, and a site whose route is a part of
another one's lies above it. -/
theorem places_of_routes :
    (∀ t origin here above, ∀ a ∈ subtreeOf origin here above t,
      ∀ b ∈ subtreeOf origin here above t,
        (Ahead a.route b.route → a.stop ≤ b.start) ∧
        (a.route <+: b.route → b ∈ a.subtree)) ∧
    ∀ ts origin k start above here before,
      ∀ a ∈ subtreesOf origin k start above here before ts,
        ∀ b ∈ subtreesOf origin k start above here before ts,
          (Ahead a.route b.route → a.stop ≤ b.start) ∧
          (a.route <+: b.route → b ∈ a.subtree) := by
  apply induct
  · intro k text origin here above a ha b hb
    obtain rfl := List.mem_singleton.1 ha
    obtain rfl := List.mem_singleton.1 hb
    exact ⟨fun h => absurd h (not_ahead_of_isPrefix List.prefix_rfl).1, fun _ => mem_subtree_self _⟩
  · intro k cs ih origin here above a ha b hb
    have hprefix := route_of_mem hb
    rcases List.mem_cons.1 ha with rfl | ha
    · exact ⟨fun h => absurd h (not_ahead_of_isPrefix hprefix).1, fun _ => hb⟩
    · rcases List.mem_cons.1 hb with rfl | hb
      · -- the node itself lies above all sites of its row
        obtain ⟨i, down, -, hroute⟩ := route_of_mem_row ha
        have habove : (pathOf above).reverse <+: a.route := ⟨_, hroute.symm⟩
        refine ⟨fun h => absurd h (not_ahead_of_isPrefix habove).2, fun h => ?_⟩
        have hlength := h.length_le
        rw [hroute] at hlength
        simp only [route, path, pathOf, List.length_append, List.length_cons,
          List.length_reverse] at hlength
        omega
      · exact ih origin k here above here [] a ha b hb
  · intro origin k start above here before a ha
    cases ha
  · intro t ts ht hts origin k start above here before a ha b hb
    -- both sites in the first tree, one in it and one behind it, or both behind it
    rcases List.mem_append.1 ha with ha | ha <;> rcases List.mem_append.1 hb with hb | hb
    · exact ht origin here _ a ha b hb
    · have hahead := route_parts ha hb
      have hstop := (subtree_within.1 _ _ _ _ a ha).2
      have hstart := (subtree_within.2 _ _ _ _ _ _ _ b hb).1
      exact ⟨fun _ => Nat.le_trans hstop hstart,
        fun h => absurd hahead (not_ahead_of_isPrefix h).1⟩
    · have hahead := route_parts hb ha
      refine ⟨fun h => ?_, fun h => absurd hahead (not_ahead_of_isPrefix h).2⟩
      obtain ⟨down, hdown⟩ := route_of_mem hb
      obtain ⟨i, down', hi, hroute⟩ := route_of_mem_row ha
      rw [← hdown, hroute] at h
      simp only [pathOf, List.map_cons, List.reverse_cons, List.append_assoc,
        List.singleton_append] at h
      rw [ahead_append] at h
      rw [List.length_cons] at hi
      rcases h with h | h <;> omega
    · exact hts origin k start above _ _ a ha b hb

variable {root a b : Site}

/-- **The order of offsets is the order of routes**, for sites with text. -/
theorem stop_le_start_iff (ha : a ∈ root.subtree) (hb : b ∈ root.subtree) (hwidth : 0 < a.tree.width)
    (hwidth' : 0 < b.tree.width) : a.stop ≤ b.start ↔ Ahead a.route b.route := by
  have hab := places_of_routes.1 _ _ _ _ a ha b hb
  have hba := places_of_routes.1 _ _ _ _ b hb a ha
  have hstop := stop_eq a
  have hstop' := stop_eq b
  refine ⟨fun hle => ?_, hab.1⟩
  rcases route_cases a.route b.route with h | h | h | h
  · have := subtree_within.1 _ _ _ _ b (hab.2 h)
    omega
  · have := subtree_within.1 _ _ _ _ a (hba.2 h)
    omega
  · exact h
  · have := hba.1 h
    omega

/-- Of two sites whose routes are one way and more of it, the first lies above the second. -/
theorem mem_ancestors_of_isPrefix {origin : Nat} {t : Tree} (ha : a ∈ (top origin t).subtree)
    (hb : b ∈ (top origin t).subtree) (h : a.route <+: b.route) : a ∈ b.ancestors := by
  have hsuffix : a.path <:+ b.path := List.reverse_prefix.1 h
  -- among the sites above `b` there is one with this path
  have hclimb : ∀ (above : List Frame) (tree : Tree) (start : Nat),
      a.path <:+ pathOf above → ∃ p ∈ (⟨tree, start, above, b.origin⟩ : Site).ancestors,
        p.path = a.path := by
    intro above
    induction above with
    | nil =>
        intro tree start h
        exact ⟨_, List.mem_cons_self, (List.suffix_nil.1 h).symm⟩
    | cons f fs ih =>
        intro tree start h
        rcases List.suffix_cons_iff.1 h with heq | h
        · exact ⟨_, List.mem_cons_self, heq.symm⟩
        · obtain ⟨p, hp, hpath⟩ := ih (Frame.close f tree) f.start h
          exact ⟨p, List.mem_cons_of_mem _ hp, hpath⟩
  obtain ⟨p, hp, hpath⟩ := hclimb b.above b.tree b.start hsuffix
  rwa [← eq_of_path_eq.1 _ _ _ _ p (ancestors_mem hb hp) a ha hpath]

/-! ## Nodes with a token of their own -/

/-- A node with a token right below it that has text. -/
def Named (s : Site) : Prop :=
  s.isNode = true ∧ ∃ token ∈ s.tree.children, token.isNode = false ∧ 0 < token.width

theorem Named.width_pos {s : Site} (h : s.Named) : 0 < s.tree.width := by
  obtain ⟨-, token, htoken, -, hwidth⟩ := h
  have hle := width_le_widthAll htoken
  have hall := widthAll_children_le s.tree
  omega

/-- A node below a node with a token of its own is less wide. -/
theorem Named.width_lt {s r : Site} (h : s.Named) (hr : r.isNode = true)
    (hbelow : s ∈ r.properAncestors) : r.tree.width < s.tree.width := by
  obtain ⟨-, token, htoken, hleaf, hwidth⟩ := h
  obtain ⟨c, hc, hcNode, hwide⟩ := exists_wide_child hr hbelow
  have hne : c ≠ token := by
    rintro rfl
    rw [hcNode] at hleaf
    cases hleaf
  have hfit := width_add_width_le hc htoken hne
  have hall := widthAll_children_le s.tree
  omega

/-- **Spans identify the nodes that have a token of their own.** -/
theorem Named.eq_of_span_eq {origin : Nat} {t : Tree} (ha : a ∈ (top origin t).subtree)
    (hb : b ∈ (top origin t).subtree) (hNamed : a.Named) (hNamed' : b.Named)
    (hspan : a.span = b.span) : a = b := by
  have hstart : a.start = b.start := congrArg Span.start hspan
  have hstop : a.stop = b.stop := congrArg Span.stop hspan
  have hwidth := hNamed.width_pos
  have hab := places_of_routes.1 _ _ _ _ a ha b hb
  have hba := places_of_routes.1 _ _ _ _ b hb a ha
  rw [stop_eq, stop_eq] at hstop
  rw [stop_eq] at hab hba
  rcases route_cases a.route b.route with h | h | h | h
  · rcases List.mem_cons.1 (mem_ancestors_of_isPrefix ha hb h) with heq | habove
    · exact heq
    · have := hNamed.width_lt hNamed'.1 habove
      omega
  · rcases List.mem_cons.1 (mem_ancestors_of_isPrefix hb ha h) with heq | habove
    · exact heq.symm
    · have := hNamed'.width_lt hNamed.1 habove
      omega
  · have := hab.1 h
    omega
  · have := hba.1 h
    omega

end CodeMend.Site

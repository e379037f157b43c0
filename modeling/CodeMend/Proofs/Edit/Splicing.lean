import CodeMend.Edit.Splice
import CodeMend.Proofs.Syntax.Nodes

/-!
# One splice is a cut of the text

A splice goes through if and only if both ends of its span are borders between tokens, and then the
tokens before it stay as they are, its own are gone, and the new ones stand in their place.

`Exact` says so of one step of the way down.  Its lemmas follow the cases of the row: a child that
lies before the span, one that holds it, one in which it starts, one that it covers, and a token
that it cuts.
-/

namespace CodeMend.Tree

/-! ## Borders -/

/-- Is `p` a border between tokens?  Offsets count from `here`, where the tokens start. -/
def Border (here : Nat) (xs : Stored) (p : Nat) : Prop :=
  ∃ before after, xs = before ++ after ∧ here + widthOf before = p

/-- Where the tokens start is a border. -/
theorem border_start (here : Nat) (xs : Stored) : Border here xs here := ⟨[], xs, rfl, rfl⟩

/-- Where the tokens end is a border. -/
theorem border_stop (here : Nat) (xs : Stored) : Border here xs (here + widthOf xs) :=
  ⟨xs, [], (List.append_nil xs).symm, rfl⟩

/-- A border stays one with more tokens behind it. -/
theorem Border.append_right {here p : Nat} {xs : Stored} (h : Border here xs p) (ys : Stored) :
    Border here (xs ++ ys) p := by
  obtain ⟨before, after, rfl, hp⟩ := h
  exact ⟨before, after ++ ys, List.append_assoc .., hp⟩

/-- A border that is not behind the first tokens is a border of theirs. -/
theorem Border.of_le {here p : Nat} {xs ys : Stored} (h : Border here (xs ++ ys) p)
    (hp : p ≤ here + widthOf xs) : Border here xs p := by
  obtain ⟨before, after, hsplit, rfl⟩ := h
  rcases List.append_eq_append_iff.1 hsplit with ⟨more, rfl, -⟩ | ⟨more, rfl, -⟩
  · -- the border lies behind tokens without text
    have hmore : widthOf more = 0 := by
      rw [widthOf_append] at hp
      omega
    refine ⟨xs, [], (List.append_nil xs).symm, ?_⟩
    rw [widthOf_append, hmore, Nat.add_zero]
  · exact ⟨before, more, rfl, rfl⟩

/-- A border that is not before the last tokens is a border of theirs. -/
theorem Border.of_ge {here p : Nat} {xs ys : Stored} (h : Border here (xs ++ ys) p)
    (hp : here + widthOf xs ≤ p) : Border (here + widthOf xs) ys p := by
  obtain ⟨before, after, hsplit, rfl⟩ := h
  rcases List.append_eq_append_iff.1 hsplit with ⟨more, rfl, rfl⟩ | ⟨more, rfl, rfl⟩
  · exact ⟨more, after, rfl, by rw [widthOf_append, Nat.add_assoc]⟩
  · have hmore : widthOf more = 0 := by
      rw [widthOf_append] at hp
      omega
    refine ⟨[], _, rfl, ?_⟩
    rw [widthOf_append, hmore, widthOf_nil]
    omega

/-- Inside a token there is no border. -/
theorem not_border_token {here p : Nat} {x : Kind × String} (hstart : here < p)
    (hstop : p < here + widthOf [x]) : ¬ Border here [x] p := by
  rintro ⟨before, after, hsplit, rfl⟩
  cases before with
  | nil => exact Nat.lt_irrefl _ hstart
  | cons y before =>
      obtain ⟨rfl, hnil⟩ : x = y ∧ [] = before ++ after := by simpa using hsplit
      obtain ⟨rfl, -⟩ := List.append_eq_nil_iff.1 hnil.symm
      exact Nat.lt_irrefl _ hstop

/-! ## Cuts -/

/-- `ys` is `xs` with the tokens from `start` to `stop` replaced by `new`: the tokens before them are
the same, and behind them come the new tokens and the old.  A token without text may outlast the cut
that it lies in. -/
def Swapped (here start stop : Nat) (new xs ys : Stored) : Prop :=
  ∃ before cut after rest, xs = before ++ (cut ++ after) ∧ ys = before ++ (new ++ rest) ∧
    here + widthOf before = start ∧ start + widthOf cut = stop ∧
    rest.Sublist (cut ++ after) ∧ solid rest = solid after

/-- What is asked of replacing a stretch of the tokens `xs` of a row: it does that and nothing else,
and it does it if both ends are borders. -/
structure Exact (here start stop : Nat) (new xs : Stored)
    (result : Except EditError (List Tree)) : Prop where
  sound : ∀ us, result = .ok us → Swapped here start stop new xs (tokensAll us)
  total : Border here xs start → Border here xs stop → ∃ us, result = .ok us

/-- What is replaced starts and ends at borders. -/
theorem Swapped.borders {here start stop : Nat} {new xs ys : Stored}
    (h : Swapped here start stop new xs ys) : Border here xs start ∧ Border here xs stop := by
  obtain ⟨before, cut, after, _, rfl, -, rfl, rfl, -, -⟩ := h
  refine ⟨⟨before, cut ++ after, rfl, rfl⟩, ⟨before ++ cut, after, ?_, ?_⟩⟩
  · rw [List.append_assoc]
  · rw [widthOf_append, Nat.add_assoc]

/-- Borders before the cut stay. -/
theorem Swapped.border_iff {here start stop p : Nat} {new xs ys : Stored}
    (h : Swapped here start stop new xs ys) (hp : p ≤ start) :
    Border here ys p ↔ Border here xs p := by
  obtain ⟨before, cut, after, rest, rfl, rfl, rfl, -, -, -⟩ := h
  exact ⟨fun hborder => (hborder.of_le hp).append_right _,
    fun hborder => (hborder.of_le hp).append_right _⟩

/-- A success behind a function comes from a success before it. -/
theorem map_eq_ok {α β : Type} {f : α → β} {result : Except EditError α} {b : β}
    (h : f <$> result = .ok b) : ∃ a, result = .ok a ∧ b = f a := by
  cases result with
  | error e => cases h
  | ok a =>
      cases h
      exact ⟨a, rfl, rfl⟩

/-- A success of two computations in order is a success of each. -/
theorem bind_eq_ok {ε α β : Type} {f : α → Except ε β} {result : Except ε α} {b : β}
    (h : (result >>= f) = .ok b) : ∃ a, result = .ok a ∧ f a = .ok b := by
  cases result with
  | error e => cases h
  | ok a => exact ⟨a, rfl, h⟩

/-- Nothing is cut, and nothing comes in. -/
theorem exact_untouched (here : Nat) (ts : List Tree) :
    Exact here here here [] (tokensAll ts) (.ok ts) where
  sound := by
    rintro us ⟨⟩
    exact ⟨[], [], tokensAll ts, tokensAll ts, rfl, rfl, rfl, rfl, List.Sublist.refl _, rfl⟩
  total := fun _ _ => ⟨ts, rfl⟩

/-- A child that lies before the span stays. -/
theorem Exact.skip {here start stop : Nat} {new : Stored} {t : Tree} {ts : List Tree}
    {result : Except EditError (List Tree)}
    (h : Exact (here + t.width) start stop new (tokensAll ts) result)
    (hstart : here + t.width ≤ start) (hstop : start ≤ stop) :
    Exact here start stop new (tokensAll (t :: ts)) ((t :: ·) <$> result) := by
  rw [width_eq.1 t] at h hstart
  constructor
  · intro us hus
    obtain ⟨us, hresult, rfl⟩ := map_eq_ok hus
    obtain ⟨before, cut, after, rest, hxs, hys, hbefore, hcut, hrest, hsolid⟩ := h.sound us hresult
    refine ⟨t.tokens ++ before, cut, after, rest, ?_, ?_, ?_, hcut, hrest, hsolid⟩
    · simp [tokensAll, hxs]
    · simp [tokensAll, hys]
    · rw [widthOf_append]
      omega
  · intro hborder hborder'
    obtain ⟨us, hus⟩ := h.total (hborder.of_ge hstart) (hborder'.of_ge (by omega))
    exact ⟨t :: us, by rw [hus]; rfl⟩

/-- A child that holds the span is the only one to change. -/
theorem Exact.inside {here start stop : Nat} {new : Stored} {t : Tree} {ts : List Tree}
    {result : Except EditError Tree}
    (h : Exact here start stop new t.tokens ((fun u => [u]) <$> result))
    (hstart : start ≤ stop) (hstop : stop ≤ here + t.width) :
    Exact here start stop new (tokensAll (t :: ts)) ((· :: ts) <$> result) := by
  rw [width_eq.1 t] at hstop
  constructor
  · intro us hus
    obtain ⟨u, hresult, rfl⟩ := map_eq_ok hus
    obtain ⟨before, cut, after, rest, hxs, hys, hbefore, hcut, hrest, hsolid⟩ :=
      h.sound [u] (by rw [hresult]; rfl)
    refine ⟨before, cut, after ++ tokensAll ts, rest ++ tokensAll ts, ?_, ?_, hbefore, hcut, ?_, ?_⟩
    · simp [tokensAll, hxs]
    · have hu : u.tokens = before ++ (new ++ rest) := by simpa [tokensAll] using hys
      simp [tokensAll, hu]
    · rw [← List.append_assoc]
      exact hrest.append_right _
    · rw [solid_append, solid_append, hsolid]
  · intro hborder hborder'
    obtain ⟨us, hus⟩ := h.total (hborder.of_le (by omega)) (hborder'.of_le hstop)
    obtain ⟨u, hu, -⟩ := map_eq_ok hus
    exact ⟨u :: ts, by rw [hu]; rfl⟩

/-- A child in which the span starts is cut up to its end, and the rest of the row loses what is
left of the span. -/
theorem Exact.straddle {here start stop : Nat} {new : Stored} {t : Tree} {ts : List Tree}
    {first : Except EditError Tree} {others : Except EditError (List Tree)}
    (hfirst : Exact here start (here + t.width) new t.tokens ((fun u => [u]) <$> first))
    (hothers : Exact (here + t.width) (here + t.width) stop [] (tokensAll ts) others)
    (hstart : start ≤ here + t.width) (hstop : here + t.width ≤ stop) :
    Exact here start stop new (tokensAll (t :: ts))
      (do
        let rest ← others
        let u ← first
        .ok (u :: rest)) := by
  rw [width_eq.1 t] at hfirst hothers hstart hstop
  constructor
  · intro us hus
    obtain ⟨others, hresult, hus⟩ := bind_eq_ok hus
    obtain ⟨u, hu, hus⟩ := bind_eq_ok hus
    cases hus
    obtain ⟨before, cut, after, rest, hxs, hys, hbefore, hcut, hrest, hsolid⟩ :=
      hfirst.sound [u] (by rw [hu]; rfl)
    obtain ⟨before', cut', after', rest', hxs', hys', hbefore', hcut', hrest', hsolid'⟩ :=
      hothers.sound others hresult
    -- what `first` keeps behind the span and `others` before it is without text
    have hafter : widthOf after = 0 := by
      have := congrArg widthOf hxs
      simp only [widthOf_append] at this
      omega
    have hempty : widthOf before' = 0 := by omega
    refine ⟨before, cut ++ (after ++ (before' ++ cut')), after', rest ++ (before' ++ rest'),
      ?_, ?_, hbefore, ?_, ?_, ?_⟩
    · simp [tokensAll, hxs, hxs']
    · have hu : u.tokens = before ++ (new ++ rest) := by simpa [tokensAll] using hys
      simp [tokensAll, hu, hys']
    · simp only [widthOf_append]
      omega
    · simpa only [List.append_assoc] using
        hrest.append ((List.Sublist.refl before').append hrest')
    · simp [hsolid, hsolid', solid_eq_nil hafter, solid_eq_nil hempty]
  · intro hborder hborder'
    obtain ⟨rest, hrest⟩ := hothers.total (border_start _ _) (hborder'.of_ge hstop)
    obtain ⟨us, hus⟩ := hfirst.total (hborder.of_le hstart) (border_stop _ _)
    obtain ⟨u, hu, -⟩ := map_eq_ok hus
    exact ⟨u :: rest, by rw [hrest, hu]; rfl⟩

/-- A child that the span covers from its start on gives way to the new trees. -/
theorem Exact.cover {here stop : Nat} {t : Tree} {ts : List Tree}
    {others : Except EditError (List Tree)} (new : List Tree)
    (h : Exact (here + t.width) (here + t.width) stop [] (tokensAll ts) others)
    (hstop : here + t.width ≤ stop) :
    Exact here here stop (tokensAll new) (tokensAll (t :: ts)) ((new ++ ·) <$> others) := by
  rw [width_eq.1 t] at h hstop
  constructor
  · intro us hus
    obtain ⟨others, hresult, rfl⟩ := map_eq_ok hus
    obtain ⟨before, cut, after, rest, hxs, hys, hbefore, hcut, hrest, hsolid⟩ :=
      h.sound others hresult
    have hempty : widthOf before = 0 := by omega
    refine ⟨[], t.tokens ++ (before ++ cut), after, before ++ rest, ?_, ?_, rfl, ?_, ?_, ?_⟩
    · simp [tokensAll, hxs]
    · simp [tokensAll_append, hys]
    · simp only [widthOf_append]
      omega
    · rw [List.append_assoc, List.append_assoc]
      exact ((List.Sublist.refl before).append hrest).trans (List.sublist_append_right _ _)
    · simp [hsolid, solid_eq_nil hempty]
  · intro _ hborder
    obtain ⟨us, hus⟩ := h.total (border_start _ _) (hborder.of_ge hstop)
    exact ⟨new ++ us, by rw [hus]; rfl⟩

/-- A node changes as its children do. -/
theorem Exact.node {here start stop : Nat} {new : Stored} {cs : List Tree}
    {result : Except EditError (List Tree)}
    (h : Exact here start stop new (tokensAll cs) result) (k : Kind) :
    Exact here start stop new (Tree.node k cs).tokens
      ((fun u => [u]) <$> (Tree.node k ·) <$> result) := by
  constructor
  · intro us hus
    obtain ⟨u, hu, rfl⟩ := map_eq_ok hus
    obtain ⟨ds, hds, rfl⟩ := map_eq_ok hu
    simpa [tokens, tokensAll] using h.sound ds hds
  · intro hborder hborder'
    obtain ⟨ds, hds⟩ := h.total hborder hborder'
    exact ⟨[.node k ds], by rw [hds]; rfl⟩

/-! ## Insertions -/

/-- New trees before a row. -/
theorem exact_insert (here : Nat) (new ts : List Tree) :
    Exact here here here (tokensAll new) (tokensAll ts) (.ok (new ++ ts)) where
  sound := by
    rintro us ⟨⟩
    refine ⟨[], [], tokensAll ts, tokensAll ts, rfl, ?_, rfl, rfl, List.Sublist.refl _, rfl⟩
    rw [tokensAll_append, List.nil_append]
  total := fun _ _ => ⟨new ++ ts, rfl⟩

/-- Insertion is exact, in a node and in a row. -/
theorem insert_exact (new : List Tree) :
    (∀ t : Tree, ∀ here point, here < point → point < here + t.width →
      Exact here point point (tokensAll new) t.tokens
        ((fun u => [u]) <$> insertIn here point new t)) ∧
    ∀ ts here point, here ≤ point → point ≤ here + widthAll ts →
      Exact here point point (tokensAll new) (tokensAll ts) (insertAmong here point new ts) := by
  apply induct
  · -- a token has no border inside
    intro k s here point hstart hstop
    refine ⟨fun us h => ?_, fun h => ?_⟩
    · cases h
    · rw [width_eq.1] at hstop
      exact absurd h (not_border_token hstart hstop)
  · intro k cs ih here point hstart hstop
    have hstop : point < here + widthAll cs := by simpa [width] using hstop
    exact (ih here point (by omega) (by omega)).node k
  · intro here point hstart hstop
    obtain rfl : here = point := by
      have : widthAll [] = 0 := rfl
      omega
    have hempty := exact_insert here new []
    rw [List.append_nil] at hempty
    exact hempty
  · intro t ts ht hts here point hstart hstop
    rw [insertAmong]
    split
    · obtain rfl : here = point := by omega
      exact exact_insert here new (t :: ts)
    split
    · exact (ht here point (by omega) (by omega)).inside (by omega) (by omega)
    · rw [widthAll] at hstop
      exact (hts (here + t.width) point (by omega) (by omega)).skip (by omega) (by omega)

/-! ## Replacements -/

/-- What is asked of replacing in a tree.  A token cannot be cut, and it is only asked to where it
would have to be. -/
def ReplacesIn (t : Tree) : Prop :=
  ∀ here whole start stop target new, here ≤ start → start < stop → stop ≤ here + t.width →
    (t.isNode = true ∨ here < start ∨ stop < here + t.width) →
    Exact here start stop (tokensAll new) t.tokens
      ((fun u => [u]) <$> replaceIn here whole ⟨start, stop⟩ target new t)

/-- What is asked of replacing in a row whose span is still to come. -/
def ReplacesAmong (ts : List Tree) : Prop :=
  ∀ here (cut : Span) target new, here ≤ cut.start → cut.start < cut.stop →
    cut.stop ≤ here + widthAll ts →
    Exact here cut.start cut.stop (tokensAll new) (tokensAll ts)
      (replaceAmong here cut target (some new) ts)

/-- What is asked of replacing in a row in which the span has started before. -/
def FinishesAmong (ts : List Tree) : Prop :=
  ∀ here (cut : Span) target, cut.start < here → here ≤ cut.stop →
    cut.stop ≤ here + widthAll ts →
    Exact here here cut.stop [] (tokensAll ts) (replaceAmong here cut target none ts)

/-- In an empty row nothing is left of the span. -/
theorem finishesAmong_nil : FinishesAmong [] := by
  intro here cut target hstart hhere hstop
  obtain hstop : cut.stop = here := by
    have : widthAll [] = 0 := rfl
    omega
  rw [hstop]
  exact exact_untouched here []

/-- The first child of a row lies within what is left of the span, holds its end, or lies behind
it. -/
theorem finishesAmong_cons {t : Tree} {ts : List Tree} (ht : ReplacesIn t)
    (hts : FinishesAmong ts) : FinishesAmong (t :: ts) := by
  intro here cut target hstart hhere hstop
  rw [widthAll] at hstop
  rw [replaceAmong, if_neg (by omega)]
  split
  · obtain hstop : cut.stop = here := by omega
    rw [hstop]
    exact exact_untouched here (t :: ts)
  rw [if_neg (by omega)]
  split
  · next hcover =>
    have hne : (Span.mk here (here + t.width) == cut) = false := by
      refine beq_eq_false_iff_ne.2 fun h => ?_
      have hsame : here = cut.start := congrArg Span.start h
      omega
    rw [hne]
    exact (hts (here + t.width) cut none (by omega) hcover (by omega)).cover [] hcover
  · have hcut := ht here cut here cut.stop target [] (Nat.le_refl _) (by omega) (by omega)
      (Or.inr (Or.inr (by omega)))
    exact hcut.inside hhere (by omega)

/-- A token is never cut. -/
theorem replacesIn_token (k : Kind) (s : String) : ReplacesIn (.token k s) := by
  intro here whole start stop target new hstart hcut hstop hcuts
  refine ⟨fun us h => ?_, fun h h' => ?_⟩
  · cases h
  · rw [width_eq.1, tokens] at hstop hcuts
    rcases hcuts with hnode | hinside | hinside
    · cases hnode
    · exact absurd h (not_border_token hinside (by omega))
    · exact absurd h' (not_border_token (by omega) hinside)

/-- A node is replaced in as its row is. -/
theorem replacesIn_node (k : Kind) {cs : List Tree} (hcs : ReplacesAmong cs) :
    ReplacesIn (.node k cs) := by
  intro here whole start stop target new hstart hcut hstop _
  exact (hcs here ⟨start, stop⟩ target new hstart hcut (by simpa [width] using hstop)).node k

/-- An empty row holds no span with text. -/
theorem replacesAmong_nil : ReplacesAmong [] := by
  intro here cut target new hstart hcut hstop
  have : widthAll [] = 0 := rfl
  omega

/-- The first child of a row lies before the span, holds it, has its start, or starts with it.
-/
theorem replacesAmong_cons {t : Tree} {ts : List Tree} (ht : ReplacesIn t)
    (hts : ReplacesAmong ts) (hfinish : FinishesAmong ts) : ReplacesAmong (t :: ts) := by
  intro here cut target new hstart hcut hstop
  rw [widthAll] at hstop
  rw [replaceAmong]
  split
  · next hbefore =>
    exact (hts (here + t.width) cut target new hbefore hcut (by omega)).skip hbefore (by omega)
  rw [if_neg (by omega)]
  split
  · next hinside =>
    split
    · next hstop =>
      have hchild := ht here cut cut.start cut.stop target new hstart hcut (by omega)
        (Or.inr (Or.inl hinside))
      exact hchild.inside (by omega) (by omega)
    · have hfirst := ht here cut cut.start (here + t.width) target new hstart (by omega)
        (Nat.le_refl _) (Or.inr (Or.inl hinside))
      have hothers := hfinish (here + t.width) cut none (by omega) (by omega) (by omega)
      exact hfirst.straddle hothers (by omega) (by omega)
  obtain hhere : cut.start = here := by omega
  split
  · next hcover =>
    split
    · next hdescends =>
      obtain ⟨hsame, hdescends⟩ := Bool.and_eq_true_iff.1 hdescends
      have hnode : t.isNode = true := (Bool.and_eq_true_iff.1 hdescends).1
      have hstop : here + t.width = cut.stop := congrArg Span.stop (beq_iff_eq.1 hsame)
      have hchild := ht here cut cut.start cut.stop target new hstart hcut (by omega)
        (Or.inl hnode)
      exact hchild.inside (by omega) (by omega)
    · rw [hhere]
      exact (hfinish (here + t.width) cut none (by omega) hcover (by omega)).cover new hcover
  · have hchild := ht here cut here cut.stop target new (Nat.le_refl _) (by omega) (by omega)
      (Or.inr (Or.inr (by omega)))
    rw [hhere]
    exact hchild.inside (by omega) (by omega)

/-- Replacement is exact, in a tree and in a row. -/
theorem replace_exact :
    (∀ t, ReplacesIn t) ∧ ∀ ts, ReplacesAmong ts ∧ FinishesAmong ts := by
  apply induct
  · exact replacesIn_token
  · intro k cs hcs
    exact replacesIn_node k hcs.1
  · exact ⟨replacesAmong_nil, finishesAmong_nil⟩
  · intro t ts ht hts
    exact ⟨replacesAmong_cons ht hts.1 hts.2, finishesAmong_cons ht hts.2⟩

/-! ## Splices -/

/-- **A splice is exact.**  Within a node, it goes through if and only if both ends are borders, and
it puts the new tokens in the place of the old. -/
theorem splice_exact {t : Tree} (hnode : t.isNode = true) (s : Splice)
    (hspan : s.span.start ≤ s.span.stop) (hstop : s.span.stop ≤ t.width) :
    Exact 0 s.span.start s.span.stop (tokensAll s.replacement.elements) t.tokens
      ((fun u => [u]) <$> t.splice s) := by
  cases t with
  | token k text => cases hnode
  | node k cs =>
      rw [width] at hstop
      unfold splice
      split
      · next hempty =>
        have hempty : s.span.start = s.span.stop := by simpa [Span.isEmpty] using hempty
        rw [← hempty]
        exact ((insert_exact s.replacement.elements).2 cs 0 s.span.start (Nat.zero_le _)
          (by omega)).node k
      · next hempty =>
        have hlt : s.span.start < s.span.stop := by
          have : s.span.start ≠ s.span.stop := by simpa [Span.isEmpty] using hempty
          omega
        exact ((replace_exact.2 cs).1 0 s.span s.target s.replacement.elements (Nat.zero_le _) hlt
          (by omega)).node k

/-- What a splice leaves of a tree is a node. -/
theorem splice_isNode {t u : Tree} {s : Splice} (h : t.splice s = .ok u) : u.isNode = true := by
  cases t with
  | token k text =>
      unfold splice at h
      split at h <;> cases h
  | node k cs =>
      unfold splice at h
      split at h
      · obtain ⟨ds, -, rfl⟩ := map_eq_ok h
        rfl
      · obtain ⟨ds, -, rfl⟩ := map_eq_ok h
        rfl

/-- What a splice leaves of a node has its kind. -/
theorem splice_node {k : Kind} {cs : List Tree} {s : Splice} {u : Tree}
    (h : (Tree.node k cs).splice s = .ok u) : ∃ ds, u = .node k ds := by
  unfold splice at h
  split at h
  · obtain ⟨ds, -, rfl⟩ := map_eq_ok h
    exact ⟨ds, rfl⟩
  · obtain ⟨ds, -, rfl⟩ := map_eq_ok h
    exact ⟨ds, rfl⟩

/-! ## What stands behind the span -/

/-- An insertion that is not behind the last child leaves that child. -/
theorem insertAmong_append_last (point : Nat) (new : List Tree) (last : Tree) {ts : List Tree}
    {here : Nat} (h : point ≤ here + widthAll ts) :
    insertAmong here point new (ts ++ [last]) =
      (· ++ [last]) <$> insertAmong here point new ts := by
  induction ts generalizing here with
  | nil =>
      have h : point ≤ here := h
      simp only [List.nil_append, insertAmong, if_pos h]
      rfl
  | cons t ts ih =>
      rw [widthAll] at h
      rw [List.cons_append, insertAmong, insertAmong]
      split
      · simp [Functor.map, Except.map]
      split
      · cases insertIn here point new t <;> rfl
      · rw [ih (by omega)]
        cases insertAmong (here + t.width) point new ts <;> rfl

/-- A replacement that ends before the last child leaves that child. -/
theorem replaceAmong_append_last {cut : Span} (hcut : cut.start < cut.stop) (last : Tree)
    {ts : List Tree} {here : Nat} (target : Option Kind) (new : Option (List Tree))
    (h : cut.stop ≤ here + widthAll ts) :
    replaceAmong here cut target new (ts ++ [last]) =
      (· ++ [last]) <$> replaceAmong here cut target new ts := by
  induction ts generalizing here target new with
  | nil =>
      have h : cut.stop ≤ here := h
      have hbehind : ¬ here + last.width ≤ cut.start := by omega
      simp only [List.nil_append, replaceAmong, if_neg hbehind, if_pos h]
      split <;> rfl
  | cons t ts ih =>
      rw [widthAll] at h
      have hrest (target : Option Kind) (new : Option (List Tree)) :
          replaceAmong (here + t.width) cut target new (ts ++ [last]) =
            (· ++ [last]) <$> replaceAmong (here + t.width) cut target new ts :=
        ih target new (by omega)
      rw [List.cons_append, replaceAmong, replaceAmong]
      simp only [hrest]
      split
      · cases replaceAmong (here + t.width) cut target new ts <;> rfl
      split
      · split <;> rfl
      split
      · split
        · cases replaceIn here cut cut target (new.getD []) t <;> rfl
        · cases replaceAmong (here + t.width) cut none none ts with
          | error e => rfl
          | ok rest => cases replaceIn here cut ⟨cut.start, here + t.width⟩ target (new.getD []) t <;> rfl
      split
      · split
        · cases replaceIn here cut cut target (new.getD []) t <;> rfl
        · cases replaceAmong (here + t.width) cut none none ts with
          | error e => rfl
          | ok rest => simp [Functor.map, Except.map]
      · cases replaceIn here cut ⟨here, cut.stop⟩ target (new.getD []) t <;> rfl

/-- What stands behind the span at the end of a node stays there. -/
theorem splice_append_last {k : Kind} {cs ds : List Tree} {s : Splice} (last : Tree)
    (hspan : s.span.start ≤ s.span.stop) (hstop : s.span.stop ≤ widthAll cs)
    (h : (Tree.node k cs).splice s = .ok (.node k ds)) :
    (Tree.node k (cs ++ [last])).splice s = .ok (.node k (ds ++ [last])) := by
  unfold splice at h ⊢
  split at h
  · next hempty =>
    obtain ⟨es, hes, hnode⟩ := map_eq_ok h
    obtain ⟨-, rfl⟩ := Tree.node.inj hnode
    rw [if_pos hempty, insertIn, insertAmong_append_last _ _ _ (by omega), hes]
    rfl
  · next hempty =>
    have hlt : s.span.start < s.span.stop := by
      have : s.span.start ≠ s.span.stop := by simpa [Span.isEmpty] using hempty
      omega
    obtain ⟨es, hes, hnode⟩ := map_eq_ok h
    obtain ⟨-, rfl⟩ := Tree.node.inj hnode
    rw [if_neg hempty, replaceIn, replaceAmong_append_last hlt last _ _ (by omega), hes]
    rfl

end CodeMend.Tree

import CodeMend.Proofs.Ordered
import CodeMend.Proofs.Syntax.Bare
import CodeMend.Proofs.Syntax.Covering
import CodeMend.Trivia.Ownership

/-!
# Places counted in significant tokens

The *rank* of a site is the number of significant tokens before it.  Unlike an offset it does not
change when trivia comes or goes, so the sites of two trees that differ in trivia only correspond to
each other by their *shade*: the rank and the tree without trivia (`subtree_shades`).

Within one tree the significant tokens have the ranks `0, 1, 2, …` (`map_rank_words`), and the
children of a node follow each other (`children_ranked`).
-/

namespace CodeMend

namespace Tree

/-- The number of significant tokens of a tree. -/
def weight (t : Tree) : Nat := (significant t.tokens).length

/-- The number of significant tokens of a row of trees. -/
def weightAll (ts : List Tree) : Nat := (significant (tokensAll ts)).length

/-- No trees weigh nothing. -/
@[simp] theorem weightAll_nil : weightAll [] = 0 := rfl

/-- The first tree and the others weigh what they do together. -/
@[simp] theorem weightAll_cons (t : Tree) (ts : List Tree) :
    weightAll (t :: ts) = t.weight + weightAll ts := by
  simp [weightAll, weight, tokensAll]

/-- A node weighs what its children do. -/
theorem weight_node (k : Kind) (cs : List Tree) : (node k cs).weight = weightAll cs := rfl

/-- Trivia weigh nothing. -/
theorem weight_of_isTrivia {t : Tree} (h : t.isTrivia = true) : t.weight = 0 := by
  cases t with
  | token k s =>
      have hk : k.isTrivia = true := h
      simp [weight, tokens, significant, hk]
  | node k cs => cases h

/-- A significant token weighs one. -/
theorem weight_token {k : Kind} (s : String) (h : k.isTrivia = false) : (token k s).weight = 1 := by
  simp [weight, tokens, significant, h]

/-- Leaving out trivia changes no weight. -/
theorem weight_bare {t : Tree} (h : t.isTrivia = false) : t.bare.weight = t.weight := by
  rw [weight, weight, tokens_bare.1 t h, significant, significant, List.filter_filter]
  simp

/-- Tokens stay tokens without their trivia. -/
theorem isToken_bare (t : Tree) : t.bare.isToken = t.isToken := by cases t <;> rfl

/-- Leaving out trivia changes no kind. -/
theorem kind_bare (t : Tree) : t.bare.kind = t.kind := by cases t <;> rfl

/-- The children without trivia. -/
theorem children_bare (t : Tree) : t.bare.children = bareAll t.children := by cases t <;> rfl

/-- Trees in a row with their ranks, the first of which is given. -/
def ranked : Nat → List Tree → List (Nat × Tree)
  | _, [] => []
  | n, t :: ts => (n, t) :: ranked (n + t.weight) ts

mutual

/-- The tokens and nodes of a tree in preorder with their ranks. -/
def places (n : Nat) : Tree → List (Nat × Tree)
  | token k s => [(n, token k s)]
  | node k cs => (n, node k cs) :: placesAll n cs

/-- The tokens and nodes of a row of trees with their ranks. -/
def placesAll (n : Nat) : List Tree → List (Nat × Tree)
  | [] => []
  | t :: ts => places n t ++ placesAll (n + t.weight) ts

end

end Tree

namespace Site

open Tree

/-! ## Ranks -/

/-- The number of significant tokens to the left of the frames. -/
def rankAt (above : List Frame) : Nat := (above.map (fun f => weightAll f.before)).sum

/-- The number of significant tokens before a site. -/
def rank (s : Site) : Nat := rankAt s.above

/-- The number of significant tokens below a site. -/
def weight (s : Site) : Nat := s.tree.weight

/-- One frame more adds what stands before it in its row. -/
@[simp] theorem rankAt_cons (k : Kind) (start : Nat) (before after : List Tree)
    (above : List Frame) :
    rankAt (⟨k, start, before, after⟩ :: above) = weightAll before + rankAt above := rfl

/-- What a site has in common with its counterpart in a tree with other trivia. -/
def shade (s : Site) : Nat × Tree := (s.rank, s.tree.bare)

/-- The significant trees of a row, with their ranks, by induction on the row. -/
theorem row_shades (origin : Nat) (k : Kind) (start : Nat) (above : List Frame) (here : Nat)
    (before ts : List Tree) :
    ((row origin k start above here before ts).filter isSignificant).map shade =
      ranked (weightAll before + rankAt above) (bareAll ts) := by
  induction ts generalizing here before with
  | nil => rfl
  | cons t ts ih =>
      cases htrivia : t.isTrivia with
      | true =>
          simp [row, bareAll, htrivia, isSignificant, isTrivia, ih, weight_of_isTrivia htrivia]
      | false =>
          have hnext : weightAll before + rankAt above + t.weight =
              weightAll (t :: before) + rankAt above := by
            rw [weightAll_cons]
            omega
          simp [row, bareAll, htrivia, isSignificant, isTrivia, ih, ranked, shade, rank,
            weight_bare htrivia, hnext]

/-- The significant children of a site, as seen without trivia. -/
theorem children_shades (s : Site) :
    (s.children.filter isSignificant).map shade = ranked s.rank s.tree.bare.children := by
  rw [children, row_shades, children_bare]
  simp [rank]

/-- Children that are told apart without looking at trivia have counterparts. -/
theorem map_shade_filter {s s' : Site} (h : s.shade = s'.shade) {p : Site → Bool}
    {g : Tree → Bool} (hsig : ∀ r, p r = true → r.isSignificant = true)
    (hg : ∀ r, p r = g r.tree.bare) :
    (s.children.filter p).map shade = (s'.children.filter p).map shade := by
  have hfilter (s : Site) :
      (s.children.filter p).map shade =
        (ranked s.rank s.tree.bare.children).filter (fun r => g r.2) := by
    rw [← children_shades, List.filter_map, List.filter_filter]
    congr 1
    refine List.filter_congr fun r _ => ?_
    show p r = (g r.tree.bare && r.isSignificant)
    rw [← hg]
    cases hp : p r with
    | true => rw [hsig r hp]; rfl
    | false => rfl
  obtain ⟨hrank, hbare⟩ := Prod.mk.inj h
  rw [hfilter, hfilter, hrank, hbare]

/-- The significant sites of a tree and of a row, by induction on both. -/
theorem subtree_shades_aux :
    (∀ t origin here above, t.isTrivia = false →
      ((subtreeOf origin here above t).filter isSignificant).map shade =
        places (rankAt above) t.bare) ∧
    ∀ ts origin k start above here before,
      ((subtreesOf origin k start above here before ts).filter isSignificant).map shade =
        placesAll (weightAll before + rankAt above) (bareAll ts) := by
  apply induct
  · intro k s origin here above h
    have hk : k.isTrivia = false := h
    simp [subtreeOf, isSignificant, isTrivia, Tree.isTrivia, hk, bare, places, shade, rank]
  · intro k cs ih origin here above _
    simp [subtreeOf, isSignificant, isTrivia, Tree.isTrivia, bare, places, shade, rank, ih]
  · intro origin k start above here before
    rfl
  · intro t ts ht hts origin k start above here before
    rw [subtreesOf, List.filter_append, List.map_append, hts]
    cases htrivia : t.isTrivia with
    | true =>
        have hnone : (subtreeOf origin here (⟨k, start, before, ts⟩ :: above) t).filter
            isSignificant = [] := by
          cases t with
          | token l s => simpa [subtreeOf, isSignificant, isTrivia] using htrivia
          | node l cs => cases htrivia
        rw [hnone, bareAll, if_pos htrivia, weightAll_cons, weight_of_isTrivia htrivia, Nat.zero_add]
        rfl
    | false =>
        have hnext : weightAll before + rankAt above + t.weight =
            weightAll (t :: before) + rankAt above := by
          rw [weightAll_cons]
          omega
        rw [ht origin here _ htrivia, bareAll, if_neg (by simp [htrivia]), placesAll,
          weight_bare htrivia, hnext, rankAt_cons]

/-- **The significant sites below a site, as seen without trivia.** -/
theorem subtree_shades {s : Site} (h : s.isSignificant = true) :
    (s.subtree.filter isSignificant).map shade = places s.rank s.tree.bare :=
  subtree_shades_aux.1 s.tree s.origin s.start s.above (by simpa [isSignificant, isTrivia] using h)

/-- A site below has a counterpart below each counterpart. -/
theorem exists_shade {s s' r' : Site} (hs : s.isSignificant = true)
    (hs' : s'.isSignificant = true) (h : s.shade = s'.shade) (hr' : r' ∈ s'.subtree)
    (hsig : r'.isSignificant = true) : ∃ r ∈ s.subtree, r.shade = r'.shade := by
  have hplaces : (s'.subtree.filter isSignificant).map shade =
      (s.subtree.filter isSignificant).map shade := by
    obtain ⟨hrank, hbare⟩ := Prod.mk.inj h
    rw [subtree_shades hs, subtree_shades hs', hrank, hbare]
  have hmem : r'.shade ∈ (s.subtree.filter isSignificant).map shade := by
    rw [← hplaces]
    exact List.mem_map.2 ⟨r', List.mem_filter.2 ⟨hr', hsig⟩, rfl⟩
  obtain ⟨r, hr, hshade⟩ := List.mem_map.1 hmem
  exact ⟨r, (List.mem_filter.1 hr).1, hshade⟩

/-! ## Ranks within one tree -/

/-- The children of a node follow each other: each starts where those before it end. -/
theorem row_ranked (origin : Nat) (k : Kind) (start : Nat) (above : List Frame) (here : Nat)
    (before ts : List Tree) :
    (row origin k start above here before ts).Pairwise (fun a b => a.rank + a.weight ≤ b.rank) ∧
      ∀ c ∈ row origin k start above here before ts, weightAll before + rankAt above ≤ c.rank ∧
        c.rank + c.weight ≤ weightAll before + rankAt above + weightAll ts := by
  induction ts generalizing here before with
  | nil => exact ⟨List.Pairwise.nil, fun c hc => by simp [row] at hc⟩
  | cons t ts ih =>
      obtain ⟨hpairs, hwithin⟩ := ih (here + t.width) (t :: before)
      simp only [weightAll_cons] at hwithin ⊢
      constructor
      · refine List.pairwise_cons.2 ⟨fun c hc => ?_, hpairs⟩
        have := (hwithin c hc).1
        show weightAll before + rankAt above + t.weight ≤ c.rank
        omega
      · intro c hc
        rcases List.mem_cons.1 hc with rfl | hc
        · show weightAll before + rankAt above ≤ weightAll before + rankAt above ∧
            weightAll before + rankAt above + t.weight ≤ _
          omega
        · have := hwithin c hc
          omega

/-- The children of a node do not overlap in rank. -/
theorem children_ranked (s : Site) :
    s.children.Pairwise (fun a b => a.rank + a.weight ≤ b.rank) :=
  (row_ranked s.origin s.kind s.start s.above s.start [] s.tree.children).1

/-- Of two children one comes before the other. -/
theorem children_apart {s a b : Site} (ha : a ∈ s.children) (hb : b ∈ s.children) :
    a = b ∨ a.rank + a.weight ≤ b.rank ∨ b.rank + b.weight ≤ a.rank :=
  or_iff_not_imp_left.2 (related_of_ne (children_ranked s) ha hb)

/-- A child lies in the range of ranks of its node. -/
theorem rank_of_mem_children {s c : Site} (h : c ∈ s.children) :
    s.rank ≤ c.rank ∧ c.rank + c.weight ≤ s.rank + s.weight := by
  have hwithin := (row_ranked s.origin s.kind s.start s.above s.start [] s.tree.children).2 c h
  have hchildren : weightAll s.tree.children ≤ s.weight := by
    unfold weight
    cases s.tree with
    | token k text => exact Nat.zero_le _
    | node k cs => exact Nat.le_refl _
  rw [weightAll_nil, Nat.zero_add] at hwithin
  exact ⟨hwithin.1, Nat.le_trans hwithin.2 (Nat.add_le_add_left hchildren _)⟩

/-- Is it a significant token? -/
def isWord (s : Site) : Bool := s.isToken && s.isSignificant

/-- **The significant tokens below a site are numbered through.** -/
theorem map_rank_words_aux :
    (∀ t origin here above, ((subtreeOf origin here above t).filter isWord).map rank =
      List.range' (rankAt above) t.weight) ∧
    ∀ ts origin k start above here before,
      ((subtreesOf origin k start above here before ts).filter isWord).map rank =
        List.range' (weightAll before + rankAt above) (weightAll ts) := by
  apply induct
  · intro k s origin here above
    cases hk : k.isTrivia with
    | true =>
        rw [weight_of_isTrivia (show (token k s).isTrivia = true from hk)]
        simp [subtreeOf, isWord, isSignificant, isTrivia, Tree.isTrivia, hk]
    | false =>
        rw [weight_token s hk]
        simp [subtreeOf, isWord, isSignificant, isTrivia, Tree.isTrivia, hk, isToken, Tree.isToken,
          rank]
  · intro k cs ih origin here above
    simp [subtreeOf, isWord, isToken, Tree.isToken, ih, weight_node]
  · intro origin k start above here before
    rfl
  · intro t ts ht hts origin k start above here before
    rw [subtreesOf, List.filter_append, List.map_append, ht, hts, rankAt_cons, weightAll_cons,
      weightAll_cons]
    have happend := List.range'_append_1 (s := weightAll before + rankAt above) (m := t.weight)
      (n := weightAll ts)
    rw [← happend]
    congr 2
    omega

/-- The significant tokens below a site are numbered from its rank on. -/
theorem map_rank_words (s : Site) :
    (s.subtree.filter isWord).map rank = List.range' s.rank s.weight :=
  map_rank_words_aux.1 s.tree s.origin s.start s.above

end Site

end CodeMend

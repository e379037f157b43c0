import CodeMend.Proofs.Paired
import CodeMend.Proofs.Syntax.Covering
import CodeMend.Proofs.Trivia.Placement
import CodeMend.Proofs.Trivia.Spans
import Mathlib.Data.List.Pairwise

/-!
# Trees without white space

`Tree.tight` is a tree with its tokens of white space taken out, and `Site.tight` the place that a
site has in it.  What a site finds around it, by going up, down or along the text, it finds in the
tight tree too (`tight_properAncestors`, `tight_children`, `tight_nextSignificant?`), as long as no
node starts with white space; and sites come in the same order (`Tree.Regular.ordered`).  So whatever
is decided by looking around is decided alike in two trees that differ in white space only.
-/

namespace CodeMend

namespace Tree

/-- Is it a token of white space? -/
def isSpace (t : Tree) : Bool := t.isTokenOf .whitespace

mutual

/-- The tree without the white space below it. -/
def tight : Tree → Tree
  | token k s => token k s
  | node k cs => node k (tightAll cs)

/-- A row of trees without white space. -/
def tightAll : List Tree → List Tree
  | [] => []
  | t :: ts => if t.isSpace then tightAll ts else tight t :: tightAll ts

end

/-- A row without white space is the row of its other trees, each without white space below it.
-/
theorem tightAll_eq (ts : List Tree) : tightAll ts = (ts.filter (!·.isSpace)).map tight := by
  induction ts with
  | nil => rfl
  | cons t ts ih =>
      cases hspace : t.isSpace with
      | true => simp [tightAll, hspace, ih]
      | false => simp [tightAll, hspace, ih]

/-- White space is left out of two rows one behind the other as out of each. -/
@[simp] theorem tightAll_append (ts us : List Tree) :
    tightAll (ts ++ us) = tightAll ts ++ tightAll us := by
  simp [tightAll_eq]

/-- White space may be left out of a reversed row. -/
@[simp] theorem tightAll_reverse (ts : List Tree) : tightAll ts.reverse = (tightAll ts).reverse := by
  simp [tightAll_eq]

/-- A tree that is no white space stays in front. -/
theorem tightAll_cons_of_not {t : Tree} (h : t.isSpace = false) (ts : List Tree) :
    tightAll (t :: ts) = t.tight :: tightAll ts := by
  simp [tightAll, h]

/-- White space in front is left out. -/
theorem tightAll_cons_of {t : Tree} (h : t.isSpace = true) (ts : List Tree) :
    tightAll (t :: ts) = tightAll ts := by
  simp [tightAll, h]

/-- Leaving out white space changes no kind. -/
@[simp] theorem kind_tight (t : Tree) : t.tight.kind = t.kind := by cases t <;> rfl

/-- Tokens stay tokens and nodes stay nodes. -/
@[simp] theorem isToken_tight (t : Tree) : t.tight.isToken = t.isToken := by cases t <;> rfl

/-- Trivia stay trivia. -/
@[simp] theorem isTrivia_tight (t : Tree) : t.tight.isTrivia = t.isTrivia := by cases t <;> rfl

/-- The children of a tight node are those of the node without white space. -/
@[simp] theorem children_tight (t : Tree) : t.tight.children = tightAll t.children := by
  cases t <;> rfl

/-- A token has no white space below it. -/
theorem tight_of_isToken {t : Tree} (h : t.isToken = true) : t.tight = t := by
  cases t with
  | token k s => rfl
  | node k cs => cases h

/-- White space is trivia. -/
theorem isTrivia_of_isSpace {t : Tree} (h : t.isSpace = true) : t.isTrivia = true := by
  cases t with
  | token k s =>
      obtain rfl : Kind.whitespace = k := by simpa [isSpace, isTokenOf] using h
      rfl
  | node k cs => cases h

/-- White space is a token. -/
theorem isToken_of_isSpace {t : Tree} (h : t.isSpace = true) : t.isToken = true := by
  cases t with
  | token k s => rfl
  | node k cs => cases h

/-- A node that is not made of white space only. -/
def KeptNode (_ : Kind) (cs : List Tree) : Prop := tightAll cs = [] → cs = []

/-- A node that does not start with trivia is not made of white space only. -/
theorem keptNode_of_fresh (k : Kind) (cs : List Tree) (h : FreshNode k cs) : KeptNode k cs := by
  intro hnone
  cases cs with
  | nil => rfl
  | cons c cs =>
      by_cases hspace : c.isSpace = true
      · have htrivia := isTrivia_of_isSpace hspace
        cases c with
        | token l s =>
            have hfirst : l.isTrivia = false := h (l, s) rfl
            exact absurd (hfirst.symm.trans htrivia) Bool.false_ne_true
        | node l ds => cases hspace
      · rw [tightAll_cons_of_not (Bool.eq_false_iff.2 hspace)] at hnone
        cases hnone

/-- What the trees of documents have in common, also where the text is broken: no node below the root
starts with trivia, and all tokens have text but for the end of the file, which comes last. -/
structure Regular (t : Tree) : Prop where
  fresh : ∃ k cs, t = .node k cs ∧ EveryNodeAmong FreshNode cs
  ends : ∃ body, t.tokens = body ++ [(.endOfFile, "")] ∧ ∀ x ∈ body, x.2 ≠ ""

/-- The tokens of a text have text, but for the last one, which is no trivia. -/
theorem Regular.ends_solid {t : Tree} (h : t.Regular) :
    t.tokens.Pairwise (fun x _ => x.2 ≠ "") ∧
      ∀ x ∈ t.tokens, x.1.isTrivia = true → x.2 ≠ "" := by
  obtain ⟨body, htokens, hsolid⟩ := h.ends
  rw [htokens]
  refine ⟨List.pairwise_append.2 ⟨?_, List.pairwise_singleton _ _, fun x hx _ _ => hsolid x hx⟩,
    fun x hx htrivia => ?_⟩
  · exact List.Pairwise.imp_of_mem (fun hx _ _ => hsolid _ hx) (List.pairwise_of_forall fun _ _ =>
      trivial : body.Pairwise fun _ _ => True)
  · rcases List.mem_append.1 hx with hx | hx
    · exact hsolid x hx
    · rw [List.mem_singleton.1 hx] at htrivia
      cases htrivia

/-- A row of which nothing is left has no other tokens than white space. -/
theorem tokensAll_of_tight_nil {cs : List Tree} (h : tightAll cs = []) :
    ∀ x ∈ tokensAll cs, x.1 = .whitespace := by
  induction cs with
  | nil => exact fun _ hx => absurd hx List.not_mem_nil
  | cons c cs ih =>
      cases hspace : c.isSpace with
      | false =>
          rw [tightAll_cons_of_not hspace] at h
          cases h
      | true =>
          rw [tightAll_cons_of hspace] at h
          intro x hx
          rcases List.mem_append.1 (show x ∈ c.tokens ++ tokensAll cs from hx) with hx | hx
          · cases c with
            | token k s =>
                obtain rfl := List.mem_singleton.1 hx
                exact (show Kind.whitespace = k by simpa [isSpace, isTokenOf] using hspace).symm
            | node k ds => cases hspace
          · exact ih h x hx

/-- In a regular tree no node is made of white space only, the root included: it has the end of
the file. -/
theorem Regular.kept {t : Tree} (h : t.Regular) : t.EveryNode KeptNode := by
  obtain ⟨k, cs, rfl, hfresh⟩ := h.fresh
  obtain ⟨body, htokens, -⟩ := h.ends
  refine ⟨fun hnone => ?_, (everyNode_mono keptNode_of_fresh).2 cs hfresh⟩
  have hend : ((.endOfFile, "") : Kind × String) ∈ tokensAll cs := by
    rw [← show (node k cs).tokens = tokensAll cs from rfl, htokens]
    simp
  exact absurd (tokensAll_of_tight_nil hnone _ hend) nofun

end Tree

namespace Site

open Tree

/-- Is it a token of white space? -/
def isSpace (s : Site) : Bool := s.tree.isSpace

/-- The number of bytes to the left of the frames. -/
def offset : List Frame → Nat
  | [] => 0
  | f :: fs => offset fs + widthAll f.before

/-- The frames of the tight tree. -/
def tightFrames : List Frame → List Frame
  | [] => []
  | f :: fs => ⟨f.kind, offset (tightFrames fs), tightAll f.before, tightAll f.after⟩ :: tightFrames fs

/-- The place of a site in the tight tree.  It does not tell from which tree the site came. -/
def tight (s : Site) : Site :=
  ⟨s.tree.tight, offset (tightFrames s.above), tightFrames s.above, 0⟩

variable {s r root : Site}

/-- The place in the tight tree has the kind of the site. -/
@[simp] theorem tight_kind (s : Site) : s.tight.kind = s.kind := kind_tight s.tree

/-- The place in the tight tree is a token if the site is. -/
@[simp] theorem tight_isToken (s : Site) : s.tight.isToken = s.isToken := isToken_tight s.tree

/-- The place in the tight tree is a node if the site is. -/
@[simp] theorem tight_isNode (s : Site) : s.tight.isNode = s.isNode := by
  rw [isNode, isNode, Tree.isNode, Tree.isNode]
  exact congrArg _ (isToken_tight s.tree)

/-- The place in the tight tree is trivia if the site is. -/
@[simp] theorem tight_isTrivia (s : Site) : s.tight.isTrivia = s.isTrivia := isTrivia_tight s.tree

/-- The place in the tight tree is significant if the site is. -/
@[simp] theorem tight_isSignificant (s : Site) : s.tight.isSignificant = s.isSignificant := by
  simp [isSignificant]

/-- A token is white space by its kind. -/
theorem isSpace_eq_kind (h : s.isToken = true) : s.isSpace = (s.kind == .whitespace) := by
  obtain ⟨tree, start, above, origin⟩ := s
  cases tree with
  | token k text => exact Bool.beq_comm
  | node k cs => cases h

/-- What is significant is no white space. -/
theorem isSpace_of_isSignificant (h : s.isSignificant = true) : s.isSpace = false := by
  cases hspace : s.isSpace with
  | false => rfl
  | true =>
      have htrivia : s.isTrivia = true := isTrivia_of_isSpace hspace
      simp [isSignificant, htrivia] at h

/-- A node is no white space. -/
theorem isSpace_of_isNode (h : s.isNode = true) : s.isSpace = false := by
  cases hspace : s.isSpace with
  | false => rfl
  | true =>
      have htoken : s.tree.isToken = true := isToken_of_isSpace hspace
      simp [isNode, Tree.isNode, htoken] at h

/-- A site is as deep in the tight tree as in the tree. -/
theorem length_tightFrames (above : List Frame) : (tightFrames above).length = above.length := by
  induction above with
  | nil => rfl
  | cons f fs ih => simp [tightFrames, ih]

/-! ## Up -/

/-- Putting a tree back between its siblings and leaving out white space go together, if the
tree stays. -/
theorem close_tight (f : Frame) {t : Tree} (h : t.isSpace = false) (start : Nat) :
    Frame.close ⟨f.kind, start, tightAll f.before, tightAll f.after⟩ t.tight =
      (Frame.close f t).tight := by
  simp [Frame.close, Tree.tight, tightAll_cons_of_not h]

/-- **Up.** The parent in the tight tree is the place of the parent. -/
theorem tight_parent? (h : s.isSpace = false) : s.tight.parent? = s.parent?.map tight := by
  obtain ⟨tree, start, above, origin⟩ := s
  cases above with
  | nil => rfl
  | cons f fs =>
      have hclose := close_tight f h (offset (tightFrames fs))
      exact congrArg (fun t => some (Site.mk t (offset (tightFrames fs)) (tightFrames fs) 0)) hclose

/-- Going up frame by frame stays in step in both trees, by induction on the frames. -/
theorem climb_tight (origin : Nat) {t : Tree} (h : t.isSpace = false) (above : List Frame) :
    climb 0 t.tight (tightFrames above) = (climb origin t above).map tight := by
  induction above generalizing t with
  | nil => rfl
  | cons f fs ih =>
      simp only [tightFrames, climb, List.map_cons, close_tight f h]
      rw [ih (t := Frame.close f t) rfl]
      rfl

/-- The ancestors in the tight tree are the places of the ancestors. -/
theorem tight_properAncestors (h : s.isSpace = false) :
    s.tight.properAncestors = s.properAncestors.map tight := climb_tight s.origin h s.above

/-! ## Down -/

/-- **Down.** A row of children in the tight tree is the row without its white space, each child
at its place, by induction on the row. -/
theorem tight_row (origin : Nat) (k : Kind) (start : Nat) (above : List Frame) (here : Nat)
    (before ts : List Tree) :
    row 0 k (offset (tightFrames above)) (tightFrames above)
        (offset (tightFrames above) + widthAll (tightAll before)) (tightAll before) (tightAll ts) =
      ((row origin k start above here before ts).filter (!·.isSpace)).map tight := by
  induction ts generalizing here before with
  | nil => rfl
  | cons t ts ih =>
      have hih := ih (here + t.width) (t :: before)
      cases hspace : t.isSpace with
      | true =>
          rw [tightAll_cons_of hspace] at hih ⊢
          rw [row, List.filter_cons_of_neg (by simp [isSpace, hspace])]
          exact hih
      | false =>
          rw [tightAll_cons_of_not hspace] at hih ⊢
          rw [row, row, List.filter_cons_of_pos (by simp [isSpace, hspace]), List.map_cons, ← hih]
          have hwidth : offset (tightFrames above) + widthAll (tightAll before) + t.tight.width =
              offset (tightFrames above) + widthAll (t.tight :: tightAll before) := by
            rw [widthAll]
            omega
          rw [hwidth]
          rfl

/-- The children in the tight tree are the places of those that are no white space. -/
theorem tight_children (s : Site) :
    s.tight.children = (s.children.filter (!·.isSpace)).map tight := by
  rw [children, children, ← tight_row s.origin s.kind s.start s.above s.start []]
  show row 0 s.tree.tight.kind _ _ _ [] s.tree.tight.children = _
  rw [kind_tight, children_tight]
  rfl

/-- A test that cannot tell a site from its place picks the same sites, white space aside. -/
theorem filter_tight {p : Site → Bool} (hp : ∀ r, p r.tight = p r) (rs : List Site) :
    ((rs.filter (!·.isSpace)).map tight).filter p =
      ((rs.filter p).filter (!·.isSpace)).map tight := by
  rw [List.filter_map, List.filter_filter, List.filter_filter]
  congr 1
  refine List.filter_congr fun r _ => ?_
  rw [Function.comp_apply, hp, Bool.and_comm]

/-- A test that white space fails picks the same sites. -/
theorem filter_tight_of {p : Site → Bool} (hp : ∀ r, p r.tight = p r)
    (hspace : ∀ r, p r = true → r.isSpace = false) (rs : List Site) :
    ((rs.filter (!·.isSpace)).map tight).filter p = (rs.filter p).map tight := by
  rw [filter_tight hp]
  congr 1
  exact List.filter_eq_self.2 fun r hr => by simp [hspace r (List.mem_filter.1 hr).2]

/-- Such a test that white space fails finds the same site first. -/
theorem find_tight {p : Site → Bool} (hp : ∀ r, p r.tight = p r)
    (hspace : ∀ r, p r = true → r.isSpace = false) (rs : List Site) :
    ((rs.filter (!·.isSpace)).map tight).find? p = (rs.find? p).map tight := by
  rw [← List.head?_filter, ← List.head?_filter, filter_tight_of hp hspace, List.head?_map]

/-- What stands below a tree in a row or a single tree, white space aside, by induction on both.
-/
theorem tight_subtree_aux :
    (∀ t origin here above, t.isSpace = false →
      subtreeOf 0 (offset (tightFrames above)) (tightFrames above) t.tight =
        ((subtreeOf origin here above t).filter (!·.isSpace)).map tight) ∧
    ∀ ts origin k start above here before,
      subtreesOf 0 k (offset (tightFrames above)) (tightFrames above)
          (offset (tightFrames above) + widthAll (tightAll before)) (tightAll before)
          (tightAll ts) =
        ((subtreesOf origin k start above here before ts).filter (!·.isSpace)).map tight := by
  apply induct
  · intro k text origin here above h
    have h : isSpace ⟨.token k text, here, above, origin⟩ = false := h
    rw [subtreeOf, List.filter_cons_of_pos (by simp [h])]
    rfl
  · intro k cs ih origin here above _
    rw [subtreeOf, List.filter_cons_of_pos (by rfl), List.map_cons, ← ih]
    rfl
  · intro origin k start above here before
    rfl
  · intro t ts ht hts origin k start above here before
    have hrest := hts origin k start above (here + t.width) (t :: before)
    rw [subtreesOf, List.filter_append, List.map_append, ← hrest]
    cases hspace : t.isSpace with
    | true =>
        have hnone : (subtreeOf origin here (⟨k, start, before, ts⟩ :: above) t).filter
            (!·.isSpace) = [] := by
          cases t with
          | token l text => simpa [subtreeOf, isSpace] using hspace
          | node l cs => cases hspace
        rw [hnone, tightAll_cons_of hspace, tightAll_cons_of hspace]
        rfl
    | false =>
        rw [← ht origin here (⟨k, start, before, ts⟩ :: above) hspace, tightAll_cons_of_not hspace,
          tightAll_cons_of_not hspace, subtreesOf]
        have hwidth : offset (tightFrames above) + widthAll (tightAll before) + t.tight.width =
            offset (tightFrames above) + widthAll (t.tight :: tightAll before) := by
          rw [widthAll]
          omega
        rw [hwidth]
        rfl

/-- All sites below a site, white space aside, are in the tight tree in the same order. -/
theorem tight_subtree (h : s.isSpace = false) :
    s.tight.subtree = (s.subtree.filter (!·.isSpace)).map tight :=
  tight_subtree_aux.1 s.tree s.origin s.start s.above h

/-- All tokens below a site, white space aside, are in the tight tree in the same order. -/
theorem tight_subtokens (h : s.isSpace = false) :
    s.tight.subtokens = (s.subtokens.filter (!·.isSpace)).map tight := by
  rw [subtokens, tight_subtree h, filter_tight tight_isToken]
  rfl

/-- A node is empty in the tight tree only if it is empty. -/
theorem isLeaf_tight (h : s.tree.EveryNode KeptNode) : s.tight.isLeaf = s.isLeaf := by
  obtain ⟨tree, start, above, origin⟩ := s
  cases tree with
  | token k text => rfl
  | node k cs =>
      rw [Bool.eq_iff_iff]
      show (tightAll cs).isEmpty = true ↔ cs.isEmpty = true
      rw [List.isEmpty_iff, List.isEmpty_iff]
      exact ⟨h.1, fun hnil => by rw [hnil]; rfl⟩

/-- The leaves below a site, white space aside, are in the tight tree in the same order. -/
theorem tight_leaves (hspace : s.isSpace = false) (h : s.tree.EveryNode KeptNode) :
    s.tight.leaves = (s.leaves.filter (!·.isSpace)).map tight := by
  rw [leaves, leaves, tight_subtree hspace, List.filter_map, List.filter_filter, List.filter_filter]
  congr 1
  refine List.filter_congr fun r hr => ?_
  have hr := everyNode_of_mem.1 s.tree s.origin s.start s.above h r hr
  rw [Function.comp_apply, isLeaf_tight hr, Bool.and_comm]

/-! ## The first token of a node -/

/-- The first leaf of a node that does not start with trivia is no trivia. -/
theorem isTrivia_of_head_leaves {n first : Site} (hnode : n.isNode = true)
    (hfresh : n.tree.EveryNode FreshNode) (h : n.leaves.head? = some first) :
    first.isTrivia = false := by
  obtain ⟨tree, start, above, origin⟩ := n
  cases tree with
  | token k text => cases hnode
  | node k cs =>
      obtain ⟨others, hleaves⟩ := List.head?_eq_some_iff.1 h
      have htokens := leaves_tokens.1 (.node k cs) origin start above
      rw [← leaves_eq ⟨.node k cs, start, above, origin⟩, hleaves, List.flatMap_cons] at htokens
      obtain ⟨tree, here, frames, source⟩ := first
      cases tree with
      | node l ds => rfl
      | token l text =>
          refine hfresh.1 (l, text) ?_
          rw [← show (node k cs).tokens = tokensAll cs from rfl, ← htokens]
          rfl

/-- The first token of a node is found in the tight tree, since it is no white space. -/
theorem tight_firstToken? {n : Site} (hnode : n.isNode = true)
    (hfresh : n.tree.EveryNode FreshNode) : n.tight.firstToken? = n.firstToken?.map tight := by
  have hkept := (everyNode_mono keptNode_of_fresh).1 n.tree hfresh
  rw [firstToken?, firstToken?, tight_leaves (isSpace_of_isNode hnode) hkept]
  cases hleaves : n.leaves with
  | nil => rfl
  | cons first others =>
      have htrivia := isTrivia_of_head_leaves hnode hfresh (by rw [hleaves]; rfl)
      have hspace : first.isSpace = false :=
        isSpace_of_isSignificant (by simp [isSignificant, htrivia])
      rw [List.filter_cons_of_pos (by simp [hspace])]
      simp only [List.map_cons, List.head?_cons, Option.filter]
      rw [tight_isToken]
      split <;> rfl

/-- A node that does not start with trivia starts with its first significant token. -/
theorem firstSignificant?_eq {n : Site} (hnode : n.isNode = true)
    (hfresh : n.tree.EveryNode FreshNode) : n.firstSignificant? = n.firstToken? := by
  have hnode : n.isToken = false := by simpa [isNode, isToken, Tree.isNode] using hnode
  rw [firstSignificant?, if_neg (by simp [hnode])]
  cases hfirst : n.firstToken? with
  | none => rfl
  | some first =>
      have hhead : n.leaves.head? = some first := (Option.filter_eq_some_iff.1 hfirst).1
      have htrivia := isTrivia_of_head_leaves (by simpa [isNode, isToken, Tree.isNode] using hnode)
        hfresh hhead
      show (if first.isTrivia = true then _ else _) = _
      rw [if_neg (by simp [htrivia])]

end Site

namespace Tree

/-! ## The tight tree is regular -/

/-- The tokens of the tight tree are the tokens without white space. -/
theorem tokens_tight :
    (∀ t : Tree, t.isSpace = false → t.tight.tokens = t.tokens.filter (·.1 != .whitespace)) ∧
    ∀ ts, tokensAll (tightAll ts) = (tokensAll ts).filter (·.1 != .whitespace) := by
  apply induct
  · intro k s h
    have hk : k ≠ .whitespace := by
      rintro rfl
      simp [isSpace, isTokenOf] at h
    simp [tight, tokens, hk]
  · intro k cs ih _
    exact ih
  · rfl
  · intro t ts ht hts
    rw [tokensAll, List.filter_append, ← hts]
    cases hspace : t.isSpace with
    | true =>
        have hnone : t.tokens.filter (·.1 != .whitespace) = [] := by
          cases t with
          | token k s =>
              obtain rfl : Kind.whitespace = k := by simpa [isSpace, isTokenOf] using hspace
              rfl
          | node k cs => cases hspace
        rw [hnone, tightAll_cons_of hspace]
        rfl
    | false => rw [tightAll_cons_of_not hspace, tokensAll, ht hspace]

/-- A node that starts without trivia does so without white space. -/
theorem freshNode_tight (k : Kind) (cs : List Tree) (h : FreshNode k cs) :
    FreshNode k (tightAll cs) := by
  intro x hx
  rw [tokens_tight.2] at hx
  unfold FreshNode StartsSignificant at h
  cases htokens : tokensAll cs with
  | nil =>
      rw [htokens] at hx
      cases hx
  | cons y ys =>
      have hy : y.1.isTrivia = false := h y (by rw [htokens]; rfl)
      have hkind : y.1 ≠ .whitespace := by
        intro hkind
        rw [hkind] at hy
        cases hy
      rw [htokens, List.filter_cons_of_pos (by simpa using hkind)] at hx
      obtain rfl : y = x := Option.some.inj hx
      exact hy

/-- What holds of every node and does not mind white space holds of every node of the tight
tree. -/
theorem everyNode_tight {P : Kind → List Tree → Prop} (hP : ∀ k cs, P k cs → P k (tightAll cs)) :
    (∀ t, EveryNode P t → EveryNode P t.tight) ∧
      ∀ ts, EveryNodeAmong P ts → EveryNodeAmong P (tightAll ts) := by
  apply induct
  · exact fun _ _ h => h
  · exact fun k cs ih h => ⟨hP k cs h.1, ih h.2⟩
  · exact id
  · intro t ts ht hts h
    cases hspace : t.isSpace with
    | true =>
        rw [tightAll_cons_of hspace]
        exact hts h.2
    | false =>
        rw [tightAll_cons_of_not hspace]
        exact ⟨ht h.1, hts h.2⟩

/-- A regular tree is a node. -/
theorem Regular.isNode {t : Tree} (h : t.Regular) : t.isNode = true := by
  obtain ⟨k, cs, rfl, -⟩ := h.fresh
  rfl

/-- The tight tree of a regular tree is regular. -/
theorem Regular.tight {t : Tree} (h : t.Regular) : t.tight.Regular := by
  obtain ⟨k, cs, rfl, hfresh⟩ := h.fresh
  obtain ⟨body, htokens, hsolid⟩ := h.ends
  refine ⟨⟨k, tightAll cs, rfl, (everyNode_tight freshNode_tight).2 cs hfresh⟩,
    body.filter (·.1 != .whitespace), ?_, fun x hx => hsolid x (List.mem_filter.1 hx).1⟩
  rw [tokens_tight.1 _ rfl, htokens, List.filter_append]
  rfl

/-- **Documents have regular trees**, whatever the text. -/
theorem parse_regular (text : String) : (parse text).1.Regular := by
  obtain ⟨cs, htree, hstored, hfresh, -⟩ := parse_tree text
  obtain ⟨body, htokens, hbody⟩ := parse_ended text
  refine ⟨⟨_, cs, htree, hfresh⟩, body, htokens, fun x hx => ?_⟩
  refine (parse_tokens_solid (x := x) (by rw [htokens]; simp [hx])).resolve_right ?_
  exact hbody x hx

end Tree

namespace Site

open Tree

/-! ## The order of the tokens -/

/-- Has the first site text, and does it end before the second one starts? -/
def Before (a b : Site) : Prop := a.start < a.stop ∧ a.stop ≤ b.start

/-- Tokens that come one after the other in a tree do not overlap, by induction on the tree and
on rows. -/
theorem subtokens_spread :
    (∀ t origin here above,
      ((subtreeOf origin here above t).filter isToken).Pairwise (fun a b => a.stop ≤ b.start)) ∧
    ∀ ts origin k start above here before,
      ((subtreesOf origin k start above here before ts).filter isToken).Pairwise
        (fun a b => a.stop ≤ b.start) := by
  apply induct
  · intro k text origin here above
    exact List.pairwise_singleton _ _
  · intro k cs ih origin here above
    exact ih origin k here above here []
  · intro origin k start above here before
    exact List.Pairwise.nil
  · intro t ts ht hts origin k start above here before
    rw [subtreesOf, List.filter_append]
    refine List.pairwise_append.2 ⟨ht _ _ _, hts _ _ _ _ _ _, fun a ha b hb => ?_⟩
    have hleft := (subtree_within.1 _ _ _ _ a (List.mem_filter.1 ha).1).2
    have hright := (subtree_within.2 _ _ _ _ _ _ _ b (List.mem_filter.1 hb).1).1
    omega

/-- The sites of the tokens store what the tree stores. -/
theorem map_stored_subtokens (s : Site) : s.subtokens.map stored = s.tree.tokens := by
  rw [← subtokens_tokens, ← List.flatMap_singleton' (s.subtokens.map stored), List.flatMap_map]
  refine List.flatMap_congr fun r hr => ?_
  rw [tokens_of_isToken (List.mem_filter.1 hr).2]

/-- A token starts behind those before it. -/
theorem subtokens_start :
    (∀ t origin here above left s right,
      (subtreeOf origin here above t).filter isToken = left ++ s :: right →
      s.start = here + widthOf (left.map stored)) ∧
    ∀ ts origin k start above here before left s right,
      (subtreesOf origin k start above here before ts).filter isToken = left ++ s :: right →
      s.start = here + widthOf (left.map stored) := by
  apply induct
  · intro k text origin here above left s right h
    cases left with
    | nil =>
        obtain ⟨rfl, -⟩ : ⟨.token k text, here, above, origin⟩ = s ∧ [] = right := List.cons.inj h
        rfl
    | cons r left =>
        have hnil := (List.cons.inj h).2
        simp at hnil
  · intro k cs ih origin here above left s right h
    exact ih origin k here above here [] left s right h
  · intro origin k start above here before left s right h
    simp [subtreesOf] at h
  · intro t ts ht hts origin k start above here before left s right h
    rw [subtreesOf, List.filter_append] at h
    rcases append_eq_append_cons_cases h with ⟨more, htree, -⟩ | ⟨more, rfl, hrest⟩
    · exact ht _ _ _ left s more htree
    · have hstored : ((subtreeOf origin here (⟨k, start, before, ts⟩ :: above) t).filter isToken).map
          stored = t.tokens :=
        map_stored_subtokens ⟨t, here, ⟨k, start, before, ts⟩ :: above, origin⟩
      rw [hts _ _ _ _ _ _ more s right hrest, List.map_append, hstored, widthOf_append,
        ← width_eq.1 t, Nat.add_assoc]

/-- The tokens of a tree stand one behind the other. -/
theorem start_of_subtokens {origin : Nat} {t : Tree} {left right : List Site} {s : Site}
    (h : (top origin t).subtokens = left ++ s :: right) : s.start = widthOfSites left := by
  have hstart := subtokens_start.1 t origin 0 [] left s right h
  rwa [Nat.zero_add, widthOf_stored fun r hr => (List.mem_filter.1
    (show r ∈ (top origin t).subtokens by rw [h]; simp [hr])).2] at hstart

/-- A token with text ends behind its start. -/
theorem start_lt_stop {s : Site} (htoken : s.isToken = true) (h : s.stored.2 ≠ "") :
    s.start < s.stop := by
  have hpos : 0 < s.text.utf8ByteSize :=
    Nat.pos_of_ne_zero fun hzero => h (String.utf8ByteSize_eq_zero_iff.1 hzero)
  rw [stop_eq, width_of_isToken htoken]
  exact Nat.lt_add_of_pos_right hpos

/-- In a regular tree every token but the last has text, so each one ends before the next. -/
theorem subtokens_before {t : Tree} (h : t.Regular) (origin : Nat) :
    (top origin t).subtokens.Pairwise Before := by
  have hspread : (top origin t).subtokens.Pairwise (fun a b => a.stop ≤ b.start) :=
    subtokens_spread.1 t origin 0 []
  have hends : ((top origin t).subtokens.map stored).Pairwise (fun x _ => x.2 ≠ "") := by
    rw [map_stored_subtokens]
    exact h.ends_solid.1
  rw [List.pairwise_map] at hends
  exact (hspread.and hends).imp_of_mem fun ha _ hab =>
    ⟨start_lt_stop (List.mem_filter.1 ha).2 hab.2, hab.1⟩

/-- The tokens that a tree shares with its tight tree. -/
def firm (s : Site) : List Site := s.subtokens.filter (!·.isSpace)

/-- The tokens shared with the tight tree are those that are no white space. -/
theorem mem_firm {s r : Site} : r ∈ s.firm ↔ r ∈ s.subtokens ∧ r.isSpace = false := by
  simp [firm]

/-- **Tokens come in the same order in the tight tree.** -/
theorem firm_ordered {t : Tree} (h : t.Regular) (origin : Nat) :
    (top origin t).firm.Pairwise (fun a b => Before a b ∧ Before a.tight b.tight) := by
  have hspace : (top origin t).isSpace = false := isSpace_of_isNode h.isNode
  have hleft := (subtokens_before h origin).filter (!·.isSpace)
  have hright := subtokens_before h.tight 0
  rw [show (top 0 t.tight).subtokens = _ from tight_subtokens hspace, List.pairwise_map] at hright
  exact hleft.and hright

/-- Of two shared tokens, both trees agree on which comes first. -/
theorem firm_cases {t : Tree} (h : t.Regular) {origin : Nat} {a b : Site}
    (ha : a ∈ (top origin t).firm) (hb : b ∈ (top origin t).firm) :
    a = b ∨ (Before a b ∧ Before a.tight b.tight) ∨ (Before b a ∧ Before b.tight a.tight) := by
  by_cases hab : a = b
  · exact Or.inl hab
  · exact Or.inr (related_of_ne (firm_ordered h origin) ha hb hab)

/-! ## Along the text -/

/-- **Along the text.** What follows a leaf is in the tight tree in the same order, white space
aside. -/
theorem tight_following {t : Tree} (h : t.Regular) {origin : Nat} {s : Site}
    (hs : s ∈ (top origin t).leaves) (hspace : s.isSpace = false) :
    s.tight.following = (s.following.filter (!·.isSpace)).map tight := by
  obtain ⟨left, right, hsplit⟩ := List.append_of_mem hs
  have hroot : (top origin t).isSpace = false := isSpace_of_isNode h.isNode
  have hleaves : (top 0 t.tight).leaves = _ := tight_leaves hroot h.kept
  rw [hsplit, List.filter_append, List.filter_cons_of_pos (by simp [hspace]), List.map_append,
    List.map_cons] at hleaves
  rw [(walk_eq hsplit).2.2, (walk_eq hleaves).2.2]

/-- The next significant token is found in the tight tree. -/
theorem tight_nextSignificant? {t : Tree} (h : t.Regular) {origin : Nat} {s : Site}
    (hs : s ∈ (top origin t).leaves) (hspace : s.isSpace = false) :
    s.tight.nextSignificant? = s.nextSignificant?.map tight := by
  have htokens : s.tight.tokensAfter = (s.tokensAfter.filter (!·.isSpace)).map tight := by
    rw [tokensAfter, tokensAfter, tight_following h hs hspace, List.takeWhile_map,
      filter_takeWhile fun r _ hr => ?_]
    · congr 2
      exact funext fun r => tight_isToken r
    · rw [isSpace_of_isNode (by simp [isNode, Tree.isNode, show r.tree.isToken = false from hr])]
      rfl
  rw [nextSignificant?, htokens, find_tight tight_isSignificant
    (fun r hr => isSpace_of_isSignificant hr)]
  rfl

end Site

end CodeMend

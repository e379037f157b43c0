import CodeMend.Proofs.Trivia.Gaps
import Mathlib.Data.List.Perm.Basic

/-!
# Demands on gaps

A rule about lines demands of some gaps that there be a blank line, and of others that there be none.
Each node makes demands on gaps inside it that lie in none of its children, so no gap is demanded
twice (`demands_distinct`), and all demands can be met at once (`Document.exists_met`).
-/

namespace CodeMend

open Tree Site

/-- Of the gap behind a word: should there be a blank line? -/
abbrev Demand := Site × Bool

/-- Demands on different gaps. -/
def Distinct (ds : List Demand) : Prop := ds.Pairwise (fun d e => d.1.rank ≠ e.1.rank)

/-- Does the gap behind the word of a rank lie inside a site? -/
def Inside (s : Site) (rank : Nat) : Prop := s.rank ≤ rank ∧ rank + 1 < s.rank + s.weight

/-- What a node may demand: something of different gaps inside it and in none of its children. -/
structure Proper (own : Site → List Demand) (s : Site) : Prop where
  distinct : Distinct (own s)
  inside : ∀ d ∈ own s, Inside s d.1.rank
  between : ∀ d ∈ own s, ∀ c ∈ s.children, ¬ Inside c d.1.rank

/-- No two demands are about the same gap. By induction on the tree and on rows: those of a node
are about gaps right below it, and those of its children lie strictly inside of them. -/
theorem demands_distinct_aux {own : Site → List Demand} :
    (∀ t origin here above, (∀ n ∈ subtreeOf origin here above t, Proper own n) →
      Distinct ((subtreeOf origin here above t).flatMap own) ∧
        ∀ d ∈ (subtreeOf origin here above t).flatMap own,
          Inside ⟨t, here, above, origin⟩ d.1.rank) ∧
    ∀ ts origin k start above here before,
      (∀ n ∈ subtreesOf origin k start above here before ts, Proper own n) →
      Distinct ((subtreesOf origin k start above here before ts).flatMap own) ∧
        ∀ d ∈ (subtreesOf origin k start above here before ts).flatMap own,
          ∃ c ∈ row origin k start above here before ts, Inside c d.1.rank := by
  apply induct
  · intro k text origin here above h
    have hproper : Proper own ⟨.token k text, here, above, origin⟩ := h _ List.mem_cons_self
    rw [subtreeOf, List.flatMap_singleton]
    exact ⟨hproper.distinct, hproper.inside⟩
  · intro k cs ih origin here above h
    have hproper : Proper own ⟨.node k cs, here, above, origin⟩ := h _ List.mem_cons_self
    obtain ⟨hdistinct, hinside⟩ := ih origin k here above here [] fun n hn =>
      h n (List.mem_cons_of_mem _ hn)
    rw [subtreeOf, List.flatMap_cons]
    refine ⟨List.pairwise_append.2 ⟨hproper.distinct, hdistinct, fun d hd e he hrank => ?_⟩,
      fun d hd => ?_⟩
    -- what a child demands has a rank inside of the child, what the node demands lies between them
    · obtain ⟨c, hc, hinside⟩ := hinside e he
      exact hproper.between d hd c hc (hrank ▸ hinside)
    · rcases List.mem_append.1 hd with hd | hd
      · exact hproper.inside d hd
      · obtain ⟨c, hc, hinside⟩ := hinside d hd
        have hwithin := rank_of_mem_children (s := ⟨.node k cs, here, above, origin⟩) hc
        unfold Inside at hinside ⊢
        omega
  · intro origin k start above here before _
    exact ⟨List.Pairwise.nil, by simp [subtreesOf]⟩
  · intro t ts ht hts origin k start above here before h
    rw [subtreesOf] at h
    obtain ⟨hfirst, hinside⟩ := ht origin here _ fun n hn => h n (List.mem_append_left _ hn)
    obtain ⟨hrest, hinside'⟩ := hts origin k start above _ _ fun n hn =>
      h n (List.mem_append_right _ hn)
    -- the ranks of the trees of a row follow one another
    have hpairs := (row_ranked origin k start above here before (t :: ts)).1
    rw [row, List.pairwise_cons] at hpairs
    rw [subtreesOf, List.flatMap_append, row]
    refine ⟨List.pairwise_append.2 ⟨hfirst, hrest, fun d hd e he hrank => ?_⟩, fun d hd => ?_⟩
    · obtain ⟨c, hc, hc'⟩ := hinside' e he
      have hd' := hinside d hd
      have := hpairs.1 c hc
      unfold Inside at hc' hd'
      omega
    · rcases List.mem_append.1 hd with hd | hd
      · exact ⟨_, List.mem_cons_self, hinside d hd⟩
      · obtain ⟨c, hc, hc'⟩ := hinside' d hd
        exact ⟨c, List.mem_cons_of_mem _ hc, hc'⟩

/-- **No gap is demanded twice.** -/
theorem demands_distinct {own : Site → List Demand} {root : Site}
    (h : ∀ n ∈ root.subtree, Proper own n) : Distinct (root.subtree.flatMap own) :=
  (demands_distinct_aux.1 root.tree root.origin root.start root.above h).1

/-- The splices that meet demands. -/
def settleAll (ds : List Demand) : List Splice := ds.flatMap fun d => (d.1.gapAfter.settle? d.2).toList

theorem settleAll_append (ds es : List Demand) :
    settleAll (ds ++ es) = settleAll ds ++ settleAll es := List.flatMap_append

/-- To take blank lines away adds no text. -/
theorem settleAll_growth_le {ds : List Demand} (h : ∀ d ∈ ds, d.2 = false) :
    ∀ s ∈ settleAll ds, s.growth ≤ 0 := by
  intro s hs
  obtain ⟨d, hd, hs⟩ := List.mem_flatMap.1 hs
  rw [h d hd, Option.mem_toList] at hs
  obtain ⟨-, hs⟩ := Option.ite_none_right_eq_some.1 hs
  obtain ⟨span, -, rfl⟩ := Option.map_eq_some_iff.1 hs
  exact Int.sub_nonpos_of_le (Int.natCast_nonneg _)

/-- What is demanded of the gap behind a word. -/
def wantOf (ds : List Demand) (a : Site) : Option Bool :=
  (ds.find? (fun d => d.1.rank == a.rank)).map Prod.snd

/-- What is wanted at a gap is what the only demand about it says. -/
theorem wantOf_of_mem {ds : List Demand} (h : Distinct ds) {d : Demand} (hd : d ∈ ds) {a : Site}
    (hrank : d.1.rank = a.rank) : wantOf ds a = some d.2 := by
  induction ds with
  | nil => cases hd
  | cons e ds ih =>
      obtain ⟨hfirst, hrest⟩ := List.pairwise_cons.1 h
      rcases List.mem_cons.1 hd with rfl | hd
      · simp [wantOf, hrank]
      · have hne : (e.1.rank == a.rank) = false := by
          rw [beq_eq_false_iff_ne, ← hrank]
          exact hfirst d hd
        have htail := ih hrest hd
        simpa [wantOf, hne] using htail

/-- The splices that meet demands are those of the words, in another order. -/
theorem settleAll_perm {root : Site} {ds : List Demand} (hwords : ∀ d ∈ ds, d.1 ∈ root.words)
    (h : Distinct ds) :
    (settleAll ds).Perm
      (root.words.flatMap fun a => ((wantOf ds a).bind (a.gapAfter.settle? ·)).toList) := by
  let splices (a : Site) := ((wantOf ds a).bind (a.gapAfter.settle? ·)).toList
  have hdemanded : settleAll ds = (ds.map Prod.fst).flatMap splices := by
    rw [List.flatMap_map]
    refine List.flatMap_congr fun d hd => ?_
    simp only [splices, wantOf_of_mem h hd rfl, Option.bind_some]
  have hothers : (root.words.filter (fun a => (wantOf ds a).isSome)).flatMap splices =
      root.words.flatMap splices := by
    induction root.words with
    | nil => rfl
    | cons a as ih =>
        cases hwant : wantOf ds a with
        | none => simp [splices, hwant, ← ih]
        | some w => simp [splices, hwant, ← ih]
  have hnodup : root.words.Nodup := List.Nodup.of_map rank (map_rank_eq root ▸ List.nodup_range')
  have hnodup' : (ds.map Prod.fst).Nodup := by
    rw [List.Nodup, List.pairwise_map]
    exact h.imp fun hne heq => hne (congrArg rank heq)
  have hperm : (ds.map Prod.fst).Perm (root.words.filter (fun a => (wantOf ds a).isSome)) := by
    refine (List.perm_ext_iff_of_nodup hnodup' (hnodup.filter _)).2 fun a => ?_
    rw [List.mem_filter, List.mem_map]
    constructor
    · rintro ⟨d, hd, rfl⟩
      exact ⟨hwords d hd, by rw [wantOf_of_mem h hd rfl]; rfl⟩
    · rintro ⟨ha, hsome⟩
      rw [wantOf, Option.isSome_map, List.find?_isSome] at hsome
      obtain ⟨d, hd, hrank⟩ := hsome
      exact ⟨d, hd, eq_of_rank_eq (hwords d hd) ha (by simpa using hrank)⟩
  rw [hdemanded]
  exact hothers ▸ hperm.flatMap_right splices

/-! ## All demands at once -/

theorem weight_of_bare_eq {t u : Tree} (ht : t.isNode = true) (hu : u.isNode = true)
    (h : t.bare = u.bare) : t.weight = u.weight := by
  have hplain {t : Tree} (ht : t.isNode = true) : t.isTrivia = false := by
    cases t with
    | token k s => cases ht
    | node k cs => rfl
  rw [← weight_bare (hplain ht), h, weight_bare (hplain hu)]

theorem Document.rank_root (d : Document) : d.root.rank = 0 := rfl

theorem Document.tree_isNode (version : Nat) (text : String) :
    (Document.ofText version text).tree.isNode = true := by
  obtain ⟨cs, htree, -⟩ := parse_tree text
  show (parse text).1.isNode = true
  rw [htree]
  rfl

/-- **All demands on a text can be met at once.**  The splices for them, in any order, can be applied
and mark nothing, if none adds text or the new text is short enough.  The new tree has the tokens of its text, which are the same but for white space
and line breaks; that text has no errors and the same tree but for trivia, and in it every demand is
met. -/
theorem Document.exists_met {version : Nat} {text : String}
    (herr : (Document.ofText version text).errors = []) {ds : List Demand}
    (hwords : ∀ d ∈ ds, d.1 ∈ (Document.ofText version text).root.words) (hdistinct : Distinct ds)
    {splices : List Splice} (hperm : splices.Perm (settleAll ds))
    (hfits : (∀ s ∈ splices, s.growth ≤ 0) ∨ ((Document.ofText version text).length : Int) +
      Patch.totalGrowth splices ≤ Patch.maxOffset) (stamp : Nat) :
    ∃ o, (⟨version, splices⟩ : Patch).apply (.ofText version text) stamp = .ok o ∧
      o.annotations = [] ∧
      o.document.tree.tokens = (parse o.document.text).1.tokens ∧
      o.document.tree.tokens.filter isKept = (parse text).1.tokens.filter isKept ∧
      (parse o.document.text).2 = [] ∧ (parse o.document.text).1.bare = (parse text).1.bare ∧
      ∀ version', ∀ a' ∈ (Document.ofText version' o.document.text).root.words, ∀ d ∈ ds,
        d.1.rank = a'.rank → a'.gapAfter.kind.isUnmet d.2 = false := by
  obtain ⟨cs, htree, htokens, hsolid⟩ := parse_tree_solid text
  have hroot := Document.clean_root herr
  obtain ⟨ys, hrespaced, hmet⟩ := hroot.exists_respaced (wantOf ds) htokens
  obtain ⟨o, ho, hmarks, hotokens⟩ := hrespaced.apply (d := .ofText version text) htree rfl hsolid
    (hperm.trans (settleAll_perm hwords hdistinct)) hfits stamp
  obtain ⟨herr', hbare, htokens'⟩ := parse_respaced herr htokens hrespaced
  have hotext : o.document.text = textOf ys := by
    show textOf o.document.tree.tokens = textOf ys
    rw [hotokens, textOf_append]
    exact String.append_empty
  refine ⟨o, ho, hmarks, ?_, ?_, ?_, ?_, ?_⟩
  · rw [hotokens, hotext, htokens']
    rfl
  · rw [hotokens, htokens, List.filter_append, List.filter_append, hrespaced.kept]
    rfl
  · rw [hotext, herr']
  · rw [hotext, hbare]
  · intro version' a' ha' d hd hrank
    rw [hotext] at ha'
    have hweight : (Document.ofText version' (textOf ys)).root.weight =
        (Document.ofText version text).root.weight :=
      weight_of_bare_eq (tree_isNode version' _) (tree_isNode version _) hbare
    have hrank' : (Document.ofText version' (textOf ys)).root.rank =
        (Document.ofText version text).root.rank := by
      rw [Document.rank_root, Document.rank_root]
    obtain ⟨a, -, harank, hwant⟩ :=
      hmet _ (Document.clean_root herr') hrank' hweight htokens' a' ha'
    exact hwant d.2 (wantOf_of_mem hdistinct hd (hrank.trans harank.symm))

end CodeMend

import Mathlib.Data.List.Nodup
import CodeMend.Proofs.Edit.Respacing
import CodeMend.Proofs.Syntax.Ranks
import CodeMend.Proofs.Trivia.Spans
import CodeMend.Syntax.Snippet
import CodeMend.Trivia.Gap

/-!
# Gaps, and how they are settled

In the tree of a text without errors the significant tokens, here *words*, are numbered by their
ranks, so the next word is the one with the next rank, and there is a gap between two words if and
only if their ranks follow each other.

`Gap.settle?` is the splice that gives a gap the blank line that is wanted, or takes away one that is
not.  `Clean.exists_respaced` makes all these splices at once, for any choice of what is wanted
where: they respace the text, and afterwards no gap is other than was wanted.
-/

namespace CodeMend

namespace Site

open Tree

/-! ## Words -/

/-- The significant tokens below a site. -/
def words (s : Site) : List Site := s.subtokens.filter isSignificant

/-- The words of a site are the sites below it that are words. -/
theorem words_eq (s : Site) : s.words = s.subtree.filter isWord := by
  rw [words, subtokens, List.filter_filter]
  exact List.filter_congr fun r _ => Bool.and_comm _ _

/-- The words of a site have consecutive ranks. -/
theorem map_rank_eq (s : Site) : s.words.map rank = List.range' s.rank s.weight := by
  rw [words_eq, map_rank_words]

/-- A word is a significant token. -/
theorem mem_words {s a : Site} : a ∈ s.words ↔ a ∈ s.subtokens ∧ a.isSignificant = true :=
  List.mem_filter

/-- A word of a site is below it. -/
theorem mem_subtree_of_mem_words {s a : Site} (h : a ∈ s.words) : a ∈ s.subtree :=
  (List.mem_filter.1 (mem_words.1 h).1).1

/-- A site has as many words as it weighs. -/
theorem length_words (s : Site) : s.words.length = s.weight := by
  rw [← List.length_map rank, map_rank_eq, List.length_range']

/-- The rank of a word counts the words before it. -/
theorem rank_eq_of_words {s a : Site} {left right : List Site}
    (h : s.words = left ++ a :: right) : a.rank = s.rank + left.length := by
  have hget := congrArg (·[left.length]?) (map_rank_eq s)
  have hlength := length_words s
  rw [h, List.length_append, List.length_cons] at hlength
  simp only [h, List.map_append, List.map_cons] at hget
  rw [List.getElem?_append_right (by simp)] at hget
  rw [List.getElem?_range' (by omega)] at hget
  simpa using hget

/-- The rank of a word lies in the range of the site. -/
theorem rank_of_mem_words {s a : Site} (h : a ∈ s.words) :
    s.rank ≤ a.rank ∧ a.rank < s.rank + s.weight := by
  have hmem : a.rank ∈ List.range' s.rank s.weight := map_rank_eq s ▸ List.mem_map_of_mem h
  exact List.mem_range'_1.1 hmem

/-- Words of one rank are the same. -/
theorem eq_of_rank_eq {s a b : Site} (ha : a ∈ s.words) (hb : b ∈ s.words)
    (h : a.rank = b.rank) : a = b :=
  List.inj_on_of_nodup_map (map_rank_eq s ▸ List.nodup_range') ha hb h

/-- For each number in the range of a site there is a word. -/
theorem exists_word {s : Site} {n : Nat} (hle : s.rank ≤ n) (hlt : n < s.rank + s.weight) :
    ∃ a ∈ s.words, a.rank = n := by
  have hmem : n ∈ s.words.map rank := by
    rw [map_rank_eq]
    exact List.mem_range'_1.2 ⟨hle, hlt⟩
  exact List.mem_map.1 hmem

/-- The words of a site below another are among those of the latter. -/
theorem words_subset {root s : Site} (hs : s ∈ root.subtree) : s.words ⊆ root.words := by
  intro a ha
  rw [words_eq, List.mem_filter] at ha ⊢
  exact ⟨subtree_trans.1 _ _ _ _ s hs a ha.1, ha.2⟩

end Site

open Tree Site

variable {root : Site}

/-- The words of a split row of tokens. -/
theorem Site.words_of_split {left right : List Site} {a : Site}
    (h : root.subtokens = left ++ a :: right) (ha : a.isSignificant = true) :
    root.words = left.filter isSignificant ++ a :: right.filter isSignificant := by
  rw [words, h, List.filter_append, List.filter_cons_of_pos ha]

/-- **The next word has the next rank.** Going along the text from a word meets trivia until it
meets the word numbered one higher, and the last word has none behind it. -/
theorem Clean.nextSignificant?_iff (hroot : Clean root) {a b : Site} (ha : a ∈ root.words) :
    a.nextSignificant? = some b ↔ b ∈ root.words ∧ b.rank = a.rank + 1 := by
  obtain ⟨hmem, hsig⟩ := mem_words.1 ha
  obtain ⟨left, right, hsplit⟩ := List.append_of_mem hmem
  have hwords := words_of_split hsplit hsig
  have hrank := rank_eq_of_words hwords
  have hnext : a.nextSignificant? = right.find? isSignificant := by
    rw [nextSignificant?, hroot.chain.after left a right hsplit]
  have hfound {c : Site} (hc : right.find? isSignificant = some c) :
      c ∈ root.words ∧ c.rank = a.rank + 1 := by
    rw [← List.head?_filter] at hc
    obtain ⟨others, hothers⟩ := List.head?_eq_some_iff.1 hc
    rw [hothers] at hwords
    have hrank' := rank_eq_of_words (by rw [hwords]; simp :
      root.words = (left.filter isSignificant ++ [a]) ++ c :: others)
    refine ⟨by rw [hwords]; simp, ?_⟩
    rw [hrank', hrank, List.length_append]
    rfl
  rw [hnext]
  refine ⟨hfound, fun hword => ?_⟩
  obtain ⟨hb, hrank'⟩ := hword
  cases hc : right.find? isSignificant with
  | some c =>
      obtain ⟨hcmem, hcrank⟩ := hfound hc
      rw [eq_of_rank_eq hcmem hb (by omega)]
  | none =>
      -- then `a` is the last word
      have hnil : right.filter isSignificant = [] := by
        rw [List.filter_eq_nil_iff]
        exact List.find?_eq_none.1 hc
      have hlength := length_words root
      rw [hwords, hnil, List.length_append, List.length_singleton] at hlength
      have := rank_of_mem_words hb
      omega

/-- The word before another has the rank one lower. -/
theorem Clean.prevSignificant?_iff (hroot : Clean root) {a p : Site} (ha : a ∈ root.words) :
    a.prevSignificant? = some p ↔ p ∈ root.words ∧ p.rank + 1 = a.rank := by
  obtain ⟨hmem, hsig⟩ := mem_words.1 ha
  obtain ⟨left, right, hsplit⟩ := List.append_of_mem hmem
  have hwords := words_of_split hsplit hsig
  have hrank := rank_eq_of_words hwords
  have hprev : a.prevSignificant? = (left.filter isSignificant).getLast? := by
    rw [prevSignificant?, hroot.chain.before left a right hsplit, ← List.head?_filter,
      List.filter_reverse, List.head?_reverse]
  have hfound {c : Site} (hc : (left.filter isSignificant).getLast? = some c) :
      c ∈ root.words ∧ c.rank + 1 = a.rank := by
    obtain ⟨others, hothers⟩ := List.getLast?_eq_some_iff.1 hc
    rw [hothers] at hwords hrank
    have hrank' := rank_eq_of_words (by rw [hwords]; simp :
      root.words = others ++ c :: (a :: right.filter isSignificant))
    refine ⟨by rw [hwords]; simp, ?_⟩
    rw [hrank', hrank, List.length_append]
    rfl
  rw [hprev]
  refine ⟨hfound, fun hword => ?_⟩
  obtain ⟨hp, hrank'⟩ := hword
  cases hc : (left.filter isSignificant).getLast? with
  | some c =>
      obtain ⟨hcmem, hcrank⟩ := hfound hc
      rw [eq_of_rank_eq hcmem hp (by omega)]
  | none =>
      have hnil : left.filter isSignificant = [] := by simpa using hc
      have := rank_of_mem_words hp
      rw [hnil, List.length_nil] at hrank
      omega

/-! ## Gaps -/

/-- The gap behind a word. -/
def Site.gapAfter (a : Site) : Gap :=
  ⟨⟨a.stop, (a.nextSignificant?.map start).getD a.stop⟩, a.triviaAfter⟩

/-- **There is a gap between two words if and only if they follow each other.** -/
theorem Clean.betweenTokens?_eq (hroot : Clean root) {a b : Site} (ha : a ∈ root.words)
    (hb : b ∈ root.words) :
    Gap.betweenTokens? a b = if b.rank = a.rank + 1 then some a.gapAfter else none := by
  show (a.nextSignificant?.bind fun next =>
    (if next.same b = true then some () else none : Option Unit).bind fun _ =>
      some (⟨⟨a.stop, b.start⟩, a.triviaAfter⟩ : Gap)) = _
  cases hnext : a.nextSignificant? with
  | none =>
      have hne : b.rank ≠ a.rank + 1 := by
        intro hrank
        rw [(hroot.nextSignificant?_iff ha).2 ⟨hb, hrank⟩] at hnext
        cases hnext
      simp [hne]
  | some c =>
      obtain ⟨hc, hcrank⟩ := (hroot.nextSignificant?_iff ha).1 hnext
      by_cases hrank : b.rank = a.rank + 1
      · obtain rfl : c = b := eq_of_rank_eq hc hb (by omega)
        simp [hnext, same_self, hrank, gapAfter]
      · have hsame : c.same b = false := by
          refine Bool.eq_false_iff.2 fun h => hrank ?_
          rw [← (same_iff (mem_subtree_of_mem_words hc) (mem_subtree_of_mem_words hb)).1 h, hcrank]
        simp [hsame, hrank]

/-- What separates two tokens, by the kinds of the trivia between them. -/
def runKind (ks : List Kind) : GapKind :=
  if ks.any Kind.isComment || ks.any Kind.isDirective then .commentBearing
  else match ks.count .newline with
    | 0 => .noNewLine
    | 1 => .singleNewLine
    | _ => .blankLine

/-- The kind of a gap depends on the kinds of its trivia only. -/
theorem Gap.kind_eq (g : Gap) : g.kind = runKind (g.trivia.map Site.kind) := by
  have hcount : (g.trivia.map Site.kind).count .newline = g.lineBreaks.length := by
    rw [List.count_eq_countP, List.countP_map, List.countP_eq_length_filter]
    rfl
  unfold Gap.kind runKind
  rw [List.any_map, List.any_map, hcount]
  simp only [Gap.hasComments, Gap.hasDirectives, Function.comp_def]
  congr 1
  match g.lineBreaks with
  | [] => rfl
  | [_] => rfl
  | _ :: _ :: _ => rfl

/-- Is a gap of this kind other than wanted: without the blank line that should be there, or with one
that should not? -/
def GapKind.isUnmet (want : Bool) : GapKind → Bool
  | .singleNewLine => want
  | .blankLine => !want
  | _ => false

/-- The splice that gives a gap the blank line that is wanted, or takes away one that is not. -/
def Gap.settle? (want : Bool) (g : Gap) : Option Splice :=
  if g.kind.isUnmet want then
    if want then
      g.blankLineInsertion?.map fun offset =>
        .insert offset ⟨[Snippet.newline g.lineBreakText], []⟩
    else g.blankLines?.map .delete
  else none

/-- A gap that is as wanted needs no splice. -/
theorem Gap.settle?_of_met {want : Bool} {g : Gap} (h : g.kind.isUnmet want = false) :
    g.settle? want = none := by
  simp [settle?, h]

/-! ## Runs of trivia -/

/-- White space and line breaks only. -/
def IsBlankRun (run : List Site) : Prop := ∀ t ∈ run, t.kind = .whitespace ∨ t.kind = .newline

/-- A gap without comments and directives holds white space and line breaks only. -/
theorem isBlankRun_of_kind {g : Gap} (htrivia : ∀ t ∈ g.trivia, t.isTrivia = true)
    (htoken : ∀ t ∈ g.trivia, t.isToken = true) (h : g.kind ≠ .commentBearing) :
    IsBlankRun g.trivia := by
  intro t ht
  have hplain : g.hasComments = false ∧ g.hasDirectives = false := by
    unfold Gap.kind at h
    split at h
    · exact absurd rfl h
    · next hnone => simpa using hnone
  have hcomment : t.kind.isComment = false := by
    simpa using List.any_eq_false.1 hplain.1 t ht
  have hdirective : t.kind.isDirective = false := by
    simpa using List.any_eq_false.1 hplain.2 t ht
  obtain ⟨k, text, htree, hk⟩ := isTrivia_of_isToken (htoken t ht)
  have hkind : t.kind = k := by simp [Site.kind, htree, Tree.kind]
  rw [htrivia t ht, ← hkind] at hk
  simpa [Kind.isTrivia, hcomment, hdirective] using hk.symm

/-- **What lies in a gap without comments and directives** is white space and line breaks. -/
theorem Clean.blank_between (hroot : Clean root) {a b x : Site} {g : Gap} (ha : a ∈ root.words)
    (hb : b ∈ root.words) (hgap : Gap.betweenTokens? a b = some g) (hfix : g.isFixable = true)
    (hx : x ∈ root.subtokens) (hsolid : x.start < x.stop) (hstart : a.stop ≤ x.start)
    (hstop : x.stop ≤ b.start) : x.kind = .whitespace ∨ x.kind = .newline := by
  rw [hroot.betweenTokens?_eq ha hb] at hgap
  obtain ⟨hrank, rfl⟩ : b.rank = a.rank + 1 ∧ a.gapAfter = g := by simpa using hgap
  obtain ⟨left, right, hsplit⟩ := List.append_of_mem (mem_words.1 ha).1
  have hnext := (hroot.nextSignificant?_iff ha).2 ⟨hb, hrank⟩
  rw [nextSignificant?, hroot.chain.after left a right hsplit] at hnext
  obtain ⟨hsig, run, rest, rfl, hrun⟩ := List.find?_eq_some_iff_append.1 hnext
  have hrun : ∀ t ∈ run, t.isTrivia = true := fun t ht => by simpa [isSignificant] using hrun t ht
  have htrivia : a.gapAfter.trivia = run := by
    rw [gapAfter, triviaAfter, hroot.chain.after left a _ hsplit, takeWhile_trivia_append hrun hsig]
  have hblank : IsBlankRun a.gapAfter.trivia := by
    refine isBlankRun_of_kind (htrivia ▸ hrun) (fun t ht => ?_) (by simpa [Gap.isFixable] using hfix)
    rw [htrivia] at ht
    exact (List.mem_filter.1 (show t ∈ root.subtokens by rw [hsplit]; simp [ht])).2
  rw [htrivia] at hblank
  -- tokens up to `a` end too early, and those from `b` on start too late
  have hfront : root.subtokens = (left ++ [a]) ++ (run ++ b :: rest) := by rw [hsplit]; simp
  have hback : root.subtokens = (left ++ a :: run) ++ b :: rest := by rw [hsplit]; simp
  rw [hfront] at hx
  rcases List.mem_append.1 hx with hx | hx
  · have hbefore := hroot.chain.before_cut hfront hx
    rw [← hroot.chain.stop_eq hsplit] at hbefore
    omega
  · rcases List.mem_append.1 hx with hx | hx
    · exact hblank x hx
    · have hbehind := hroot.chain.behind_cut hback hx
      rw [← hroot.chain.start _ b rest hback] at hbehind
      omega

/-- What separates two tokens with only blanks between them is the number of line breaks. -/
theorem runKind_of_blank {ks : List Kind} (h : ∀ k ∈ ks, k = .whitespace ∨ k = .newline) :
    runKind ks = match ks.count .newline with
      | 0 => .noNewLine
      | 1 => .singleNewLine
      | _ => .blankLine := by
  have hcomment : ks.any Kind.isComment = false := by
    refine List.any_eq_false.2 fun k hk => ?_
    rcases h k hk with rfl | rfl <;> nofun
  have hdirective : ks.any Kind.isDirective = false := by
    refine List.any_eq_false.2 fun k hk => ?_
    rcases h k hk with rfl | rfl <;> nofun
  simp only [runKind, hcomment, hdirective, Bool.or_self, Bool.false_eq_true, if_false]

/-- A run with one line break. -/
theorem exists_break {g : Gap} (h : g.kind = .singleNewLine) :
    ∃ first line last, g.trivia = first ++ line :: last ∧ line.kind = .newline ∧
      (∀ t ∈ first, t.kind ≠ .newline) ∧ (∀ t ∈ last, t.kind ≠ .newline) ∧
      g.lineBreaks = [line] := by
  obtain ⟨line, hbreaks⟩ : ∃ line, g.lineBreaks = [line] := by
    unfold Gap.kind at h
    split at h
    · cases h
    · split at h
      · cases h
      · next line hbreaks => exact ⟨line, hbreaks⟩
      · cases h
  obtain ⟨first, last, hrun, hfirst, hline, hlast⟩ := List.filter_eq_cons_iff.1 hbreaks
  refine ⟨first, line, last, hrun, by simpa using hline, fun t ht => by simpa using hfirst t ht,
    fun t ht => ?_, hbreaks⟩
  simpa using List.filter_eq_nil_iff.1 hlast t ht

/-- A run with a blank line. -/
theorem exists_blank {g : Gap} (h : g.kind = .blankLine) :
    ∃ first line gone final last, g.trivia = first ++ line :: ((gone ++ [final]) ++ last) ∧
      line.kind = .newline ∧ final.kind = .newline ∧ (∀ t ∈ first, t.kind ≠ .newline) ∧
      (∀ t ∈ last, t.kind ≠ .newline) ∧ g.lineBreaks.head? = some line ∧
      g.lineBreaks.getLast? = some final := by
  obtain ⟨line, others, hbreaks, hne⟩ : ∃ line others, g.lineBreaks = line :: others ∧
      others ≠ [] := by
    unfold Gap.kind at h
    split at h
    · cases h
    · split at h
      · cases h
      · cases h
      · next hnil hone =>
        cases hbreaks : g.lineBreaks with
        | nil => exact absurd hbreaks hnil
        | cons line others =>
            refine ⟨line, others, rfl, ?_⟩
            rintro rfl
            exact hone line hbreaks
  obtain ⟨first, rest, hrun, hfirst, hline, hrest⟩ := List.filter_eq_cons_iff.1 hbreaks
  obtain ⟨inner, final, rfl⟩ : ∃ inner final, others = inner ++ [final] :=
    ⟨others.dropLast, others.getLast hne, (List.dropLast_append_getLast hne).symm⟩
  obtain ⟨before, behind, rfl, -, hbehind⟩ := List.filter_eq_append_iff.1 hrest
  obtain ⟨gone, last, rfl, -, hfinal, hlast⟩ := List.filter_eq_cons_iff.1 hbehind
  refine ⟨first, line, before ++ gone, final, last, ?_, by simpa using hline,
    by simpa using hfinal, fun t ht => by simpa using hfirst t ht, fun t ht => ?_, ?_, ?_⟩
  · rw [hrun]
    simp
  · simpa using List.filter_eq_nil_iff.1 hlast t ht
  · rw [hbreaks]
    rfl
  · rw [hbreaks, ← List.cons_append, List.getLast?_append]
    rfl

/-! ## Settling one gap -/

/-- Where a token that follows others ends. -/
theorem Clean.stop_of_run (hroot : Clean root) {left run right : List Site} {a t : Site}
    (h : root.subtokens = left ++ a :: (run ++ t :: right)) :
    t.stop = a.stop + widthOf (run.map Site.stored) + t.text.utf8ByteSize := by
  have htoken : ∀ s ∈ left ++ a :: (run ++ t :: right), s.isToken = true := fun s hs =>
    (List.mem_filter.1 (h ▸ hs)).2
  have hstop := hroot.chain.stop_eq (by rw [h]; simp :
    root.subtokens = (left ++ a :: run) ++ t :: right)
  rw [hstop, hroot.chain.stop_eq h, widthOf_stored fun s hs => htoken s (by simp [hs]),
    ← Site.width_of_isToken (htoken t (by simp))]
  simp only [widthOfSites_append, widthOfSites_cons, widthOfSites_nil]
  omega

/-- What `new` does for a gap behind `a`: it is trivia, as wanted, and takes the place of the old
trivia by the splices `ss`. -/
structure Settles (a : Site) (want : Option Bool) (ss : List Splice) (new : Stored) : Prop where
  trivia : ∀ x ∈ new, x.1.isTrivia = true
  met : ∀ w ∈ want, (runKind (new.map Prod.fst)).isUnmet w = false
  respaced : ∀ xs ys more, (∀ x ∈ xs.head?, x.1 ≠ .newline) →
    Respaced (a.stop + widthOf (a.triviaAfter.map Site.stored)) xs more ys →
    Respaced a.stop (a.triviaAfter.map Site.stored ++ xs) (ss ++ more) (new ++ ys)

/-- The kinds of stored tokens are those of the sites. -/
theorem map_fst_stored (run : List Site) :
    (run.map Site.stored).map Prod.fst = run.map Site.kind := by
  rw [List.map_map]
  rfl

/-- A stored token is trivia if the site is. -/
theorem isTrivia_stored {t : Site} (h : t.isToken = true) : t.stored.1.isTrivia = t.isTrivia := by
  obtain ⟨k, text, htree, hk⟩ := isTrivia_of_isToken h
  rw [hk]
  simp [Site.stored, Site.kind, htree, Tree.kind]

/-- A run of trivia is stored as trivia. -/
theorem trivia_stored {run : List Site} (htrivia : ∀ t ∈ run, t.isTrivia = true)
    (htoken : ∀ t ∈ run, t.isToken = true) : ∀ x ∈ run.map Site.stored, x.1.isTrivia = true := by
  intro x hx
  obtain ⟨t, ht, rfl⟩ := List.mem_map.1 hx
  rw [isTrivia_stored (htoken t ht), htrivia t ht]

section Settle

variable {a : Site} {left rest : List Site}

/-- A gap that is as wanted is settled by leaving it. -/
theorem Clean.settles_kept {want : Option Bool}
    (htrivia : ∀ t ∈ a.triviaAfter, t.isTrivia = true)
    (htoken : ∀ t ∈ a.triviaAfter, t.isToken = true)
    (hmet : ∀ w ∈ want, a.gapAfter.kind.isUnmet w = false) :
    Settles a want [] (a.triviaAfter.map Site.stored) where
  trivia := trivia_stored htrivia htoken
  met := fun w hw => by
    rw [map_fst_stored]
    have := hmet w hw
    rwa [Gap.kind_eq] at this
  respaced := fun _ _ _ _ h => .keepAll _ h

/-- A line break is stored with its text. -/
theorem stored_of_newline {t : Site} (h : t.kind = .newline) : t.stored = (.newline, t.text) := by
  rw [Site.stored, h]

/-- A run without line breaks does not start with one. -/
theorem head?_ne_newline {run : List Site} {xs : Stored} (hrun : ∀ t ∈ run, t.kind ≠ .newline)
    (hxs : ∀ x ∈ xs.head?, x.1 ≠ .newline) :
    ∀ x ∈ (run.map Site.stored ++ xs).head?, x.1 ≠ .newline := by
  cases run with
  | nil => exact hxs
  | cons t run =>
      rintro x ⟨⟩
      exact hrun t List.mem_cons_self

/-- A run without line breaks counts none. -/
theorem count_newline {run : List Site} (h : ∀ t ∈ run, t.kind ≠ .newline) :
    (run.map Site.kind).count .newline = 0 := by
  rw [List.count_eq_zero]
  intro hmem
  obtain ⟨t, ht, hkind⟩ := List.mem_map.1 hmem
  exact h t ht hkind

/-- The kinds of a blank run. -/
theorem blank_kinds {run : List Site} (h : IsBlankRun run) :
    ∀ k ∈ run.map Site.kind, k = .whitespace ∨ k = .newline := by
  intro k hk
  obtain ⟨t, ht, rfl⟩ := List.mem_map.1 hk
  exact h t ht

/-- **A blank line that is not wanted is taken away** by one deletion, from the end of the first
line break of the gap to the end of its last one. What is left is one line break with the white
space around it, so the gap has a single line break; the indentation of the next line stays. -/
theorem Clean.settles_dropped (hroot : Clean root)
    (hsplit : root.subtokens = left ++ a :: (a.triviaAfter ++ rest))
    (htrivia : ∀ t ∈ a.triviaAfter, t.isTrivia = true)
    (htoken : ∀ t ∈ a.triviaAfter, t.isToken = true) (hkind : a.gapAfter.kind = .blankLine) :
    ∃ new, Settles a (some false) (a.gapAfter.settle? false).toList new := by
  obtain ⟨first, line, gone, final, last, hrun, hline, hfinal, hfirst, hlast, hhead, hend⟩ :=
    exists_blank hkind
  have hrun : a.triviaAfter = first ++ line :: ((gone ++ [final]) ++ last) := hrun
  have hblank : IsBlankRun a.triviaAfter :=
    isBlankRun_of_kind (g := a.gapAfter) htrivia htoken (by rw [hkind]; nofun)
  rw [hrun] at hsplit hblank htrivia htoken
  have hsettle : a.gapAfter.settle? false = some (.delete ⟨line.stop, final.stop⟩) := by
    simp [Gap.settle?, Gap.blankLines?, hkind, GapKind.isUnmet, hhead, hend]
  have hlineStop : line.stop =
      a.stop + widthOf (first.map Site.stored) + line.text.utf8ByteSize :=
    hroot.stop_of_run (by rw [hsplit]; simp :
      root.subtokens = left ++ a :: (first ++ line :: ((gone ++ [final]) ++ last ++ rest)))
  have hfinalStop : final.stop = line.stop + widthOf ((gone ++ [final]).map Site.stored) := by
    rw [hroot.stop_of_run (by rw [hsplit]; simp :
      root.subtokens = (left ++ a :: first) ++ line :: (gone ++ final :: (last ++ rest)))]
    simp [Site.stored, Nat.add_assoc]
  -- what is left: the first line break with the white space around the blank lines
  have hsub : first ++ line :: last ⊆ first ++ line :: ((gone ++ [final]) ++ last) :=
    ((List.Sublist.refl first).append ((List.sublist_append_right _ last).cons_cons line)).subset
  refine ⟨(first ++ line :: last).map Site.stored, ?_, ?_, ?_⟩
  · exact trivia_stored (fun t ht => htrivia t (hsub ht)) fun t ht => htoken t (hsub ht)
  · rintro w ⟨⟩
    rw [map_fst_stored, runKind_of_blank (blank_kinds fun t ht => hblank t (hsub ht))]
    simp [count_newline hfirst, count_newline hlast, hline, GapKind.isUnmet]
  · intro xs ys more hxs h
    rw [hsettle, hrun]
    rw [hrun] at h
    -- what is dropped is white space and line breaks, and ends with a line break
    have hgone : ∀ x ∈ (gone ++ [final]).map Site.stored, isKept x = false := by
      intro x hx
      obtain ⟨t, ht, rfl⟩ := List.mem_map.1 hx
      rcases hblank t (by simp only [List.mem_append, List.mem_cons] at ht ⊢; tauto) with hk | hk
      · simp [isKept, Site.stored, hk]
      · simp [isKept, Site.stored, hk]
    have hends : ((gone ++ [final]).map Site.stored).getLast? = some (.newline, final.text) := by
      rw [List.map_append, List.getLast?_append]
      simp [stored_of_newline hfinal]
    have hkeep : Respaced final.stop (last.map Site.stored ++ xs) more (last.map Site.stored ++ ys) := by
      refine .keepAll _ ?_
      have hwhere : a.stop + widthOf ((first ++ line :: ((gone ++ [final]) ++ last)).map Site.stored) =
          final.stop + widthOf (last.map Site.stored) := by
        rw [hfinalStop, hlineStop]
        simp [Site.stored]
        omega
      rwa [hwhere] at h
    rw [hfinalStop, hlineStop] at hkeep ⊢
    have hdrop := Respaced.drop hgone hends (head?_ne_newline hlast hxs) hkeep
    have hall := Respaced.keepAll (first.map Site.stored) hdrop
    rw [← stored_of_newline hline] at hall
    simpa only [List.map_append, List.map_cons, List.map_nil, List.append_assoc, List.cons_append,
      List.nil_append, Option.toList_some] using hall

/-- **A blank line that is wanted is added** by one insertion behind the line break of the gap,
with the line break that the gap has. The gap then has two of them. -/
theorem Clean.settles_added (hroot : Clean root)
    (hsplit : root.subtokens = left ++ a :: (a.triviaAfter ++ rest))
    (htrivia : ∀ t ∈ a.triviaAfter, t.isTrivia = true)
    (htoken : ∀ t ∈ a.triviaAfter, t.isToken = true) (hkind : a.gapAfter.kind = .singleNewLine) :
    ∃ new, Settles a (some true) (a.gapAfter.settle? true).toList new := by
  obtain ⟨first, line, last, hrun, hline, hfirst, hlast, hbreaks⟩ := exists_break hkind
  have hrun : a.triviaAfter = first ++ line :: last := hrun
  have hblank : IsBlankRun a.triviaAfter :=
    isBlankRun_of_kind (g := a.gapAfter) htrivia htoken (by rw [hkind]; nofun)
  rw [hrun] at hsplit hblank htrivia htoken
  have hsettle : a.gapAfter.settle? true =
      some (.insert line.stop ⟨[.token .newline line.text], []⟩) := by
    simp [Gap.settle?, Gap.blankLineInsertion?, Gap.lineBreakText, hkind, GapKind.isUnmet, hbreaks,
      Snippet.newline]
  have hlineStop : line.stop =
      a.stop + widthOf (first.map Site.stored) + line.text.utf8ByteSize :=
    hroot.stop_of_run (by rw [hsplit]; simp :
      root.subtokens = left ++ a :: (first ++ line :: (last ++ rest)))
  -- the line break is doubled, and nothing else changes
  have hsub : first ++ line :: line :: last ⊆ first ++ line :: last := by
    intro t ht
    simp only [List.mem_append, List.mem_cons] at ht ⊢
    tauto
  refine ⟨(first ++ line :: line :: last).map Site.stored, ?_, ?_, ?_⟩
  · exact trivia_stored (fun t ht => htrivia t (hsub ht)) fun t ht => htoken t (hsub ht)
  · rintro w ⟨⟩
    rw [map_fst_stored, runKind_of_blank (blank_kinds fun t ht => hblank t (hsub ht))]
    simp [count_newline hfirst, count_newline hlast, hline, GapKind.isUnmet]
  · intro xs ys more hxs h
    rw [hsettle, hrun]
    rw [hrun] at h
    have hkeep : Respaced line.stop (last.map Site.stored ++ xs) more (last.map Site.stored ++ ys) := by
      refine .keepAll _ ?_
      have hwhere : a.stop + widthOf ((first ++ line :: last).map Site.stored) =
          line.stop + widthOf (last.map Site.stored) := by
        rw [hlineStop]
        simp [Site.stored]
        omega
      rwa [hwhere] at h
    rw [hlineStop] at hkeep ⊢
    have hadd := Respaced.add (head?_ne_newline hlast hxs) hkeep
    have hall := Respaced.keepAll (first.map Site.stored) hadd
    rw [← stored_of_newline hline] at hall
    simpa only [List.map_append, List.map_cons, List.append_assoc, List.cons_append,
      List.nil_append, Option.toList_some] using hall

/-- **Every gap can be settled.** -/
theorem Clean.exists_settles (hroot : Clean root)
    (hsplit : root.subtokens = left ++ a :: (a.triviaAfter ++ rest))
    (htrivia : ∀ t ∈ a.triviaAfter, t.isTrivia = true)
    (htoken : ∀ t ∈ a.triviaAfter, t.isToken = true) (want : Option Bool) :
    ∃ new, Settles a want (want.bind (a.gapAfter.settle? ·)).toList new := by
  cases want with
  | none => exact ⟨_, settles_kept htrivia htoken (by nofun)⟩
  | some w =>
      cases hunmet : a.gapAfter.kind.isUnmet w with
      | false =>
          have hkept : Settles a (some w) [] (a.triviaAfter.map Site.stored) :=
            settles_kept htrivia htoken (by rintro v ⟨⟩; exact hunmet)
          exact ⟨_, by simpa [Gap.settle?_of_met hunmet] using hkept⟩
      | true =>
          cases hkind : a.gapAfter.kind with
          | noNewLine => rw [hkind] at hunmet; cases hunmet
          | commentBearing => rw [hkind] at hunmet; cases hunmet
          | singleNewLine =>
              obtain rfl : w = true := by simpa [hkind, GapKind.isUnmet] using hunmet
              exact hroot.settles_added hsplit htrivia htoken hkind
          | blankLine =>
              obtain rfl : w = false := by simpa [hkind, GapKind.isUnmet] using hunmet
              exact hroot.settles_dropped hsplit htrivia htoken hkind

end Settle

/-! ## Settling all gaps -/

/-- Tokens as trivia at the front, and words each with the trivia behind it. -/
theorem exists_blocks (ls : List Site) :
    ∃ (front : List Site) (blocks : List (Site × List Site)),
      ls = front ++ blocks.flatMap (fun b => b.1 :: b.2) ∧ (∀ t ∈ front, t.isTrivia = true) ∧
      ∀ b ∈ blocks, b.1.isSignificant = true ∧ ∀ t ∈ b.2, t.isTrivia = true := by
  induction ls with
  | nil => exact ⟨[], [], rfl, by simp, by simp⟩
  | cons s ls ih =>
      obtain ⟨front, blocks, rfl, hfront, hblocks⟩ := ih
      cases hs : s.isTrivia with
      | true => exact ⟨s :: front, blocks, rfl, by simpa [hs] using hfront, hblocks⟩
      | false =>
          refine ⟨[], (s, front) :: blocks, rfl, by simp, fun b hb => ?_⟩
          rcases List.mem_cons.1 hb with rfl | hb
          · exact ⟨by simp [isSignificant, hs], hfront⟩
          · exact hblocks b hb

/-- The words of blocks. -/
theorem filter_blocks {blocks : List (Site × List Site)}
    (h : ∀ b ∈ blocks, b.1.isSignificant = true ∧ ∀ t ∈ b.2, t.isTrivia = true) :
    (blocks.flatMap (fun b => b.1 :: b.2)).filter isSignificant = blocks.map Prod.fst := by
  induction blocks with
  | nil => rfl
  | cons b blocks ih =>
      obtain ⟨hb, htrivia⟩ := h b List.mem_cons_self
      rw [List.flatMap_cons, List.cons_append, List.filter_cons_of_pos hb, List.filter_append,
        filter_significant_of_trivia htrivia, ih fun c hc => h c (List.mem_cons_of_mem b hc)]
      rfl

/-- The trivia behind the word of the given number. -/
def runAfter : Nat → Stored → Stored
  | _, [] => []
  | 0, x :: xs => if x.1.isTrivia then runAfter 0 xs else xs.takeWhile (·.1.isTrivia)
  | i + 1, x :: xs => if x.1.isTrivia then runAfter (i + 1) xs else runAfter i xs

/-- Trivia at the front do not change which word is counted. -/
theorem runAfter_trivia {run : Stored} (h : ∀ x ∈ run, x.1.isTrivia = true) (i : Nat)
    (xs : Stored) : runAfter i (run ++ xs) = runAfter i xs := by
  induction run with
  | nil => rfl
  | cons x run ih =>
      have hx := h x List.mem_cons_self
      have hrun := ih fun y hy => h y (List.mem_cons_of_mem x hy)
      cases i with
      | zero => rw [List.cons_append, runAfter, if_pos hx, hrun]
      | succ i => rw [List.cons_append, runAfter, if_pos hx, hrun]

/-- The trivia behind the first word are those up to the next one. -/
theorem runAfter_zero {x : Kind × String} {run xs : Stored} (hx : x.1.isTrivia = false)
    (hrun : ∀ y ∈ run, y.1.isTrivia = true) (hxs : ∀ y ∈ xs.head?, y.1.isTrivia = false) :
    runAfter 0 (x :: (run ++ xs)) = run := by
  rw [runAfter, if_neg (by simp [hx]), List.takeWhile_append_of_pos hrun]
  cases xs with
  | nil => simp
  | cons y xs => simp [hxs y rfl]

/-- The trivia behind a later word are found behind the first word and its trivia. -/
theorem runAfter_succ {x : Kind × String} {run : Stored} (hx : x.1.isTrivia = false)
    (hrun : ∀ y ∈ run, y.1.isTrivia = true) (i : Nat) (xs : Stored) :
    runAfter (i + 1) (x :: (run ++ xs)) = runAfter i xs := by
  rw [runAfter, if_neg (by simp [hx]), runAfter_trivia hrun]

/-- Trivia at the front of sites are trivia at the front of the stored tokens. -/
theorem takeWhile_stored {ls : List Site} (htoken : ∀ t ∈ ls, t.isToken = true) :
    (ls.map Site.stored).takeWhile (·.1.isTrivia) = (ls.takeWhile Site.isTrivia).map Site.stored := by
  induction ls with
  | nil => rfl
  | cons s ls ih =>
      have hrest := ih fun t ht => htoken t (List.mem_cons_of_mem s ht)
      have hstored := isTrivia_stored (htoken s List.mem_cons_self)
      cases hs : s.isTrivia with
      | true => simp [hstored, hs, hrest]
      | false => simp [hstored, hs]

/-- The trivia behind a word of a row are found by counting the words before it. -/
theorem runAfter_split {left right : List Site} {a : Site}
    (htoken : ∀ t ∈ left ++ a :: right, t.isToken = true) (ha : a.isSignificant = true) :
    runAfter (left.filter isSignificant).length ((left ++ a :: right).map Site.stored) =
      (right.takeWhile Site.isTrivia).map Site.stored := by
  induction left with
  | nil =>
      have hstored := isTrivia_stored (htoken a (by simp))
      rw [isTrivia_of_isSignificant ha] at hstored
      show runAfter 0 (a.stored :: right.map Site.stored) = _
      rw [runAfter, if_neg (by simp [hstored]), takeWhile_stored fun t ht => htoken t (by simp [ht])]
  | cons s left ih =>
      have hleft := ih fun t ht => htoken t (List.mem_cons_of_mem s ht)
      have hstored := isTrivia_stored (htoken s (by simp))
      cases hs : s.isTrivia with
      | true =>
          have hsig : s.isSignificant = false := by simp [isSignificant, hs]
          rw [hs] at hstored
          rw [List.filter_cons_of_neg (by simp [hsig]), List.cons_append, List.map_cons,
            ← hleft]
          have hone : ∀ x ∈ [s.stored], x.1.isTrivia = true := by simpa using hstored
          exact runAfter_trivia hone _ _
      | false =>
          have hsig : s.isSignificant = true := by simp [isSignificant, hs]
          rw [hs] at hstored
          rw [List.filter_cons_of_pos hsig, List.cons_append, List.map_cons, ← hleft]
          have hnone : ∀ x ∈ ([] : Stored), x.1.isTrivia = true := by simp
          exact runAfter_succ hstored hnone _ _

/-- In a tree, the trivia behind a word is that behind the word of its number. -/
theorem Clean.triviaAfter_eq (hroot : Clean root) {a : Site} (ha : a ∈ root.words) :
    a.triviaAfter.map Site.stored =
      runAfter (a.rank - root.rank) (root.subtokens.map Site.stored) := by
  obtain ⟨hmem, hsig⟩ := mem_words.1 ha
  obtain ⟨left, right, hsplit⟩ := List.append_of_mem hmem
  have hrank := rank_eq_of_words (words_of_split hsplit hsig)
  have htoken : ∀ t ∈ left ++ a :: right, t.isToken = true := fun t ht =>
    (List.mem_filter.1 (hsplit ▸ ht)).2
  rw [triviaAfter, hroot.chain.after left a right hsplit, hrank, Nat.add_sub_cancel_left, hsplit,
    runAfter_split htoken hsig]

/-- What the settled gaps of blocks are like; behind the blocks stands the last word. -/
theorem Clean.respaced_blocks (hroot : Clean root) (want : Site → Option Bool) {last : Site}
    (hlast : last.isSignificant = true) (left : List Site) {blocks : List (Site × List Site)}
    (hsplit : root.subtokens = left ++ (blocks.flatMap (fun b => b.1 :: b.2) ++ [last]))
    (hblocks : ∀ b ∈ blocks, b.1.isSignificant = true ∧ ∀ t ∈ b.2, t.isTrivia = true) :
    ∃ ys, Respaced (widthOfSites left)
        ((blocks.flatMap (fun b => b.1 :: b.2)).map Site.stored)
        ((blocks.map Prod.fst).flatMap fun a =>
          ((want a).bind (a.gapAfter.settle? ·)).toList) ys ∧
      (∀ x ∈ (ys ++ [last.stored]).head?, x.1.isTrivia = false) ∧
      ∀ i a, (blocks.map Prod.fst ++ [last])[i]? = some a → ∀ w ∈ want a,
        (runKind ((runAfter i (ys ++ [last.stored])).map Prod.fst)).isUnmet w = false := by
  have htoken : ∀ t ∈ root.subtokens, t.isToken = true := fun t ht => (List.mem_filter.1 ht).2
  induction blocks generalizing left with
  | nil =>
      have hstored := isTrivia_stored (htoken last (by rw [hsplit]; simp))
      rw [isTrivia_of_isSignificant hlast] at hstored
      refine ⟨[], .nil _, by rintro x ⟨⟩; exact hstored, fun i a ha w hw => ?_⟩
      have hnone : runAfter i [last.stored] = [] := by
        -- the word of number zero is this one, and the others are counted from the next block on
        cases i with
        | zero => simp [runAfter, hstored]
        | succ i => simp [runAfter, hstored]
      rw [List.nil_append, hnone]
      rfl
  | cons b blocks ih =>
      obtain ⟨a, run⟩ := b
      obtain ⟨ha, hrun⟩ := hblocks (a, run) List.mem_cons_self
      obtain ⟨ys, hrespaced, hhead, hmet⟩ := ih (left ++ a :: run) (by rw [hsplit]; simp)
        fun c hc => hblocks c (List.mem_cons_of_mem _ hc)
      have hsplit : root.subtokens =
          left ++ a :: (run ++ (blocks.flatMap (fun b => b.1 :: b.2) ++ [last])) := by
        rw [hsplit]
        simp
      -- the trivia behind the word is its block's, since another word follows it
      have htrivia : a.triviaAfter = run := by
        rw [triviaAfter, hroot.chain.after left a _ hsplit]
        cases blocks with
        | nil => exact takeWhile_trivia_append hrun hlast
        | cons c blocks => exact takeWhile_trivia_append hrun (hblocks c (by simp)).1
      have hatoken := htoken a (by rw [hsplit]; simp)
      have hruntoken : ∀ t ∈ run, t.isToken = true := fun t ht =>
        htoken t (by rw [hsplit]; simp [ht])
      obtain ⟨new, hnew⟩ := hroot.exists_settles (by rw [htrivia]; exact hsplit)
        (by rw [htrivia]; exact hrun) (by rw [htrivia]; exact hruntoken) (want a)
      have hstored := isTrivia_stored hatoken
      rw [isTrivia_of_isSignificant ha] at hstored
      have hstop : widthOfSites left + a.stored.2.utf8ByteSize = a.stop := by
        rw [hroot.chain.stop_eq hsplit, widthOfSites_append, widthOfSites_cons, widthOfSites_nil,
          Site.width_of_isToken hatoken]
        rfl
      have hwhere : widthOfSites (left ++ a :: run) =
          a.stop + widthOf (a.triviaAfter.map Site.stored) := by
        rw [htrivia, widthOf_stored hruntoken, hroot.chain.stop_eq hsplit]
        simp only [widthOfSites_append, widthOfSites_cons, widthOfSites_nil]
        omega
      have hxs : ∀ x ∈ ((blocks.flatMap (fun b => b.1 :: b.2)).map Site.stored).head?,
          x.1 ≠ .newline := by
        intro x hx hkind
        rw [← hrespaced.head?_eq] at hx
        have hsig := hhead x (by rw [List.head?_append, Option.mem_def.1 hx]; rfl)
        rw [hkind] at hsig
        cases hsig
      -- the settled gap, before what the other blocks become
      have hall := hnew.respaced _ _ _ hxs (hwhere ▸ hrespaced)
      rw [htrivia, ← hstop] at hall
      refine ⟨a.stored :: (new ++ ys), ?_, ?_, ?_⟩
      · have hkeep := Respaced.keep hall
        simpa only [List.map_cons, List.flatMap_cons, List.map_append, List.cons_append] using hkeep
      · rintro x ⟨⟩
        exact hstored
      · intro i c hc w hw
        rw [List.cons_append, List.append_assoc]
        cases i with
        | zero =>
            obtain rfl : a = c := by simpa using hc
            rw [runAfter_zero hstored hnew.trivia hhead]
            exact hnew.met w hw
        | succ i =>
            rw [runAfter_succ hstored hnew.trivia]
            exact hmet i c (by simpa using hc) w hw

/-- **All gaps can be settled at once.**  Whatever is wanted behind which word, the splices for it
respace the tokens, and in a tree with the new tokens no gap is other than was wanted. -/
theorem Clean.exists_respaced (hroot : Clean root) (want : Site → Option Bool) {xs : Stored}
    (htokens : root.tree.tokens = xs ++ [(.endOfFile, "")]) :
    ∃ ys, Respaced 0 xs
        (root.words.flatMap fun a => ((want a).bind (a.gapAfter.settle? ·)).toList) ys ∧
      ∀ root', Clean root' → root'.rank = root.rank → root'.weight = root.weight →
        root'.tree.tokens = ys ++ [(.endOfFile, "")] →
        ∀ a' ∈ root'.words, ∃ a ∈ root.words, a.rank = a'.rank ∧
          ∀ w ∈ want a, a'.gapAfter.kind.isUnmet w = false := by
  have hstored := hroot.tokens_eq.symm.trans htokens
  obtain ⟨body, behind, hsubtokens, hbody, hbehind⟩ := List.map_eq_append_iff.1 hstored
  obtain ⟨last, rfl, hlaststored⟩ := List.map_eq_singleton_iff.1 hbehind
  have hlast : last.isSignificant = true := hroot.ends last (by rw [hsubtokens]; simp)
  obtain ⟨front, blocks, rfl, hfront, hblocks⟩ := exists_blocks body
  rw [List.append_assoc] at hsubtokens
  obtain ⟨ys, hrespaced, hhead, hmet⟩ := hroot.respaced_blocks want hlast front hsubtokens hblocks
  have hfronttoken : ∀ t ∈ front, t.isToken = true := fun t ht =>
    (List.mem_filter.1 (show t ∈ root.subtokens by rw [hsubtokens]; simp [ht])).2
  have hwords : root.words = blocks.map Prod.fst ++ [last] := by
    rw [words, hsubtokens, List.filter_append, filter_significant_of_trivia hfront,
      List.filter_append, filter_blocks hblocks, List.filter_cons_of_pos hlast]
    rfl
  have hend : ((want last).bind (last.gapAfter.settle? ·)).toList = [] := by
    have hnone : last.triviaAfter = [] := by
      rw [triviaAfter, hroot.chain.after _ last [] (by rw [hsubtokens, List.append_assoc])]
      rfl
    have hkind : last.gapAfter.kind = .noNewLine := by
      rw [Gap.kind_eq, gapAfter, hnone]
      rfl
    cases want last with
    | none => rfl
    | some w =>
        rw [Option.bind_some, Gap.settle?_of_met (by rw [hkind]; rfl)]
        rfl
  refine ⟨front.map Site.stored ++ ys, ?_, ?_⟩
  · rw [← hbody, List.map_append, hwords, List.flatMap_append, List.flatMap_singleton, hend,
      List.append_nil]
    refine .keepAll _ ?_
    rwa [Nat.zero_add, widthOf_stored hfronttoken]
  · intro root' hroot' hrank hweight htokens' a' ha'
    have hwithin := rank_of_mem_words ha'
    have hlength : a'.rank - root'.rank < root.words.length := by
      rw [length_words]
      omega
    obtain ⟨a, hget⟩ : ∃ a, root.words[a'.rank - root'.rank]? = some a :=
      ⟨_, List.getElem?_eq_getElem hlength⟩
    have harank : a.rank = a'.rank := by
      have hmap := congrArg (·[a'.rank - root'.rank]?) (map_rank_eq root)
      rw [length_words] at hlength
      simp only [List.getElem?_map, hget, List.getElem?_range' hlength] at hmap
      have : a.rank = root.rank + (a'.rank - root'.rank) := by simpa using hmap
      omega
    refine ⟨a, List.mem_of_getElem? hget, harank, fun w hw => ?_⟩
    have hkind : a'.gapAfter.kind =
        runKind ((runAfter (a'.rank - root'.rank) (ys ++ [last.stored])).map Prod.fst) := by
      rw [Gap.kind_eq, gapAfter, ← map_fst_stored, hroot'.triviaAfter_eq ha', ← hroot'.tokens_eq,
        htokens', List.append_assoc, runAfter_trivia, hlaststored]
      exact trivia_stored hfront hfronttoken
    rw [hkind]
    exact hmet _ a (by rw [← hwords, hget]) w hw

end CodeMend

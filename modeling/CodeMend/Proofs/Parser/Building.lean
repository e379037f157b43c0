import CodeMend.Proofs.Parser.Grammar

/-!
# Properties of the nodes that are built

Let a property of nodes have the nodes of one kind each where they are built, and let it be respected
by the combinators of the grammar: then it holds of every node (`builds_congruence`), at every depth and in a whole file (`Fitting.ofSource`).

What is said about a step is said under a condition: that there are no complaints (`Silent`), or only
that no bound ended it early (`Uncut`).
-/

namespace CodeMend.Parse

open Tree

/-- A condition on the complaints of a step and on whether it was cut. -/
abbrev Condition := List SyntaxError → Bool → Prop

/-- There are no complaints. -/
abbrev Silent : Condition := fun errors _ => errors = []

/-- No bound was reached. -/
abbrev Uncut : Condition := fun _ cut => cut = false

/-- A condition that the parts of a step meet if the step does. -/
def Condition.Parts (G : Condition) : Prop :=
  ∀ {errors errors' cut cut'}, G (errors ++ errors') (cut || cut') → G errors cut ∧ G errors' cut'

/-- Of two steps that complain about nothing neither complains. -/
theorem silent_parts : Condition.Parts Silent := fun h => List.append_eq_nil_iff.1 h

/-- Of two steps that are not cut neither is. -/
theorem uncut_parts : Condition.Parts Uncut := fun h => Bool.or_eq_false_iff.1 h

/-- Where the parser meets the condition, every node that it builds has the property. -/
def Builds (G : Condition) (P : Kind → List Tree → Prop) (p : Parser) : Prop :=
  ∀ ts, G (p ts).errors (p ts).cut → EveryNodeAmong P (p ts).built

/-- Where the parser meets the condition, a node over what ends with its work has the property. -/
def Tops (G : Condition) (P : Kind → List Tree → Prop) (k : Kind) (p : Parser) : Prop :=
  ∀ before ts, G (p ts).errors (p ts).cut → P k (before ++ (p ts).built)

/-- A condition and a property for which the error nodes that come with a complaint are no
obstacle. -/
structure Fitting (G : Condition) (P : Kind → List Tree → Prop) : Prop where
  parts : G.Parts
  error : ∀ {errors cut}, G errors cut → errors ≠ [] → ∀ cs, P .error cs

/-- Where there is an error node, there is a complaint. -/
theorem silent_fitting (P : Kind → List Tree → Prop) : Fitting Silent P :=
  ⟨silent_parts, fun h hne => absurd h hne⟩

section Combinators

variable {G : Condition} {P : Kind → List Tree → Prop}

/-- Parsers in order build what each of them builds. -/
theorem Builds.seq (hG : G.Parts) {p q : Parser} (hp : Builds G P p) (hq : Builds G P q) :
    Builds G P (fun ts => (p ts).andThen q) := by
  intro ts h
  obtain ⟨hpMeets, hqMeets⟩ := hG h
  exact everyNodeAmong_append.2 ⟨hp ts hpMeets, hq _ hqMeets⟩

/-- Trivia are no nodes. -/
theorem flush_builds : Builds G P flush := fun _ _ => everyNodeAmong_leaves P _

/-- A token is no node. -/
theorem bump_builds : Builds G P bump := by
  intro ts _
  have htake : EveryNodeAmong P (take (flush ts).rest).built := by
    unfold take
    split
    · trivial
    · split
      · trivial
      · exact everyNodeAmong_leaves P [_]
  show EveryNodeAmong P (all [flush, take] ts).built
  rw [all_pair]
  exact everyNodeAmong_append.2 ⟨everyNodeAmong_leaves P _, htake⟩

/-- What holds of nothing, of what each turn builds and of two such rows together holds of what a
loop builds. -/
theorem turns_built (hG : G.Parts) {Q : List Tree → Prop} (hnil : Q [])
    (happend : ∀ xs ys, Q xs → Q ys → Q (xs ++ ys)) {look : Look} {turn : List Token → Turn}
    (hturn : ∀ ts, look ts = true → G (turn ts).step.errors (turn ts).step.cut →
      Q (turn ts).step.built) (n : Nat) (ts : List Token)
    (h : G (turns look turn n ts).errors (turns look turn n ts).cut) :
    Q (turns look turn n ts).built := by
  induction n generalizing ts with
  | zero =>
      unfold turns given either
      split <;> exact hnil
  | succ n ih =>
      unfold turns at h ⊢
      split at h
      · next hlook =>
        rw [if_pos hlook]
        dsimp only at h ⊢
        split at h
        · next hagain =>
          rw [if_pos hagain]
          obtain ⟨hturnMeets, hrestMeets⟩ := hG h
          exact happend _ _ (hturn ts hlook hturnMeets) (ih _ hrestMeets)
        · next hagain =>
          rw [if_neg hagain]
          exact hturn ts hlook h
      · next hlook =>
        rw [if_neg hlook]
        exact hnil

/-- A loop builds what its turns build. -/
theorem turns_builds (hG : G.Parts) {look : Look} {turn : List Token → Turn}
    (hturn : ∀ ts, G (turn ts).step.errors (turn ts).step.cut →
      EveryNodeAmong P (turn ts).step.built) (n : Nat) :
    Builds G P (turns look turn n) :=
  turns_built hG trivial (fun _ _ hxs hys => everyNodeAmong_append.2 ⟨hxs, hys⟩)
    (fun ts _ => hturn ts) n

/-- A fallback builds what it and what it stands in for build. -/
theorem orWhenStuck_builds (hG : G.Parts) {p q : Parser} (hp : Builds G P p)
    (hq : Builds G P q) : Builds G P (orWhenStuck p q) := by
  intro ts h
  unfold orWhenStuck at h ⊢
  dsimp only at h ⊢
  split at h
  · next hstuck =>
    rw [if_pos hstuck]
    exact Builds.seq hG hp hq ts h
  · next hstuck =>
    rw [if_neg hstuck]
    exact hp ts h

/-- What is built so far and what a node goes on with stand under that node. -/
theorem everyNode_enclose {k : Kind} {built more : List Tree} (hk : P k (built ++ more))
    (hbuilt : EveryNodeAmong P built) (hmore : EveryNodeAmong P more) :
    EveryNodeAmong P [.node k (built ++ more)] :=
  ⟨⟨hk, everyNodeAmong_append.2 ⟨hbuilt, hmore⟩⟩, trivial⟩

/-- What wraps an operand is built of nodes with the property, if each node that is picked has
it, by induction on the times it wraps. -/
theorem wraps_builds (hG : G.Parts) {pick : List Token → Option (Kind × List Parser)}
    (hpick : ∀ ts k ps, pick ts = some (k, ps) → Tops G P k (all ps) ∧ Builds G P (all ps))
    (n : Nat) (built : List Tree) (hbuilt : EveryNodeAmong P built) :
    Builds G P (wraps pick n built) := by
  induction n generalizing built with
  | zero => exact fun _ _ => hbuilt
  | succ n ih =>
      intro ts h
      cases hp : pick ts with
      | none =>
          simp only [wraps, hp]
          exact hbuilt
      | some found =>
          obtain ⟨k, ps⟩ := found
          obtain ⟨hk, hps⟩ := hpick ts k ps hp
          simp only [wraps, hp] at h ⊢
          obtain ⟨hpsMeets, hrestMeets⟩ := hG h
          exact ih _ (everyNode_enclose (hk _ _ hpsMeets) hbuilt (hps ts hpsMeets)) _ hrestMeets

/-- A step that may be put into a node, if that node has the property. -/
theorem extendIf_builds (hG : G.Parts) {p : Parser} {look : Look} {k : Kind} {ps : List Parser}
    (hk : Tops G P k (all ps)) (hp : Builds G P p) (hps : Builds G P (all ps)) :
    Builds G P (extendIf p look k ps) := by
  intro ts h
  unfold extendIf at h ⊢
  dsimp only at h ⊢
  split at h
  · next hlook =>
    rw [if_pos hlook]
    obtain ⟨hpMeets, hpsMeets⟩ := hG h
    exact everyNode_enclose (hk _ _ hpsMeets) (hp ts hpMeets) (hps _ hpsMeets)
  · next hlook =>
    rw [if_neg hlook]
    exact hp ts h

/-- A node with the property over nodes with the property. -/
theorem under_builds {k : Kind} {p : Parser} (hk : Tops G P k p) (hp : Builds G P p) :
    Builds G P (under k p) := fun ts h => ⟨⟨hk [] ts h, hp ts h⟩, trivial⟩

/-- A token that is skipped comes with a complaint, so its node is no obstacle. -/
theorem skip_builds (hfit : Fitting G P) (message : String) : Builds G P (skip message) := by
  intro ts h
  have herror := hfit.error h (skip_errors message ts)
  unfold skip either at h ⊢
  split at h
  · next hend =>
    rw [if_pos hend]
    trivial
  · next hend =>
    rw [if_neg hend]
    refine everyNodeAmong_append.2 ⟨trivial, everyNodeAmong_append.2 ⟨?_, trivial⟩⟩
    rw [node, all_pair]
    refine everyNodeAmong_append.2 ⟨everyNodeAmong_leaves P _, ⟨herror _, ?_⟩, trivial⟩
    exact everyNodeAmong_append.2 ⟨bump_builds (G := fun _ _ => True) _ trivial, trivial⟩

/-- What is picked is known to fit the tokens ahead. -/
theorem headed_builds (hfit : Fitting G P) {α : Type} {lead : Parser} {look : List Token → α}
    {pick : α → Option (Kind × Parser)} {message : String} (hlead : Builds G P lead)
    (hpick : ∀ us k p, pick (look us) = some (k, p) →
      (∀ before, G (p us).errors (p us).cut → P k (before ++ (p us).built)) ∧ Builds G P p) :
    Builds G P (headed lead look pick message) := by
  intro ts h
  unfold headed at h ⊢
  dsimp only at h ⊢
  cases hp : pick (look (lead ts).rest) with
  | some found =>
      obtain ⟨k, p⟩ := found
      obtain ⟨hk, hbuilds⟩ := hpick _ k p hp
      simp only [hp] at h ⊢
      exact ⟨⟨hk _ (hfit.parts h).2, Builds.seq hfit.parts hlead hbuilds ts h⟩, trivial⟩
  | none =>
      simp only [hp] at h ⊢
      split at h
      · next hstuck =>
        rw [if_pos hstuck]
        exact hlead ts h
      · next hstuck =>
        rw [if_neg hstuck]
        have hcomplains : ((lead ts).errors ++ (complain message (lead ts).rest).errors) ≠ [] := by
          simp [complain]
        refine ⟨⟨hfit.error h hcomplains _, ?_⟩, trivial⟩
        exact everyNodeAmong_append.2 ⟨hlead ts (hfit.parts h).1, trivial⟩

/-- Building nodes with a property is respected by the combinators. -/
theorem builds_congruence (hfit : Fitting G P) :
    Congruence (Alone (Builds G P)) (Tops G P) (fun _ _ => True) where
  done := fun _ _ => trivial
  complain := fun _ _ _ => trivial
  flush := flush_builds
  bump := bump_builds
  seq := Builds.seq hfit.parts
  choose := fun _ h ts => h _ ts
  under := under_builds
  retry := fun _ _ hp hq => orWhenStuck_builds hfit.parts hp hq
  recover := fun message _ _ _ hp ts =>
    turns_builds hfit.parts
      (fun us => orWhenStuck_builds hfit.parts hp (skip_builds hfit message) us) _ ts
  extend := fun _ hk hp hps => extendIf_builds hfit.parts hk hp hps
  loop := fun _ _ _ hitem hnext _ ts =>
    turns_builds hfit.parts
      (fun us h => Builds.seq hfit.parts (hitem _) (hnext _ _ _) us h) _ ts
  wrap := by
    intro α l f g p p' _ hp hpick ts h
    obtain ⟨hpMeets, hrestMeets⟩ := hfit.parts h
    refine wraps_builds hfit.parts (fun us k ps hus => ?_) _ _ (hp ts hpMeets) _ hrestMeets
    exact (hpick (l us)).left k (all ps) (by simp [hus])
  head := by
    intro α look pick _ lead _ message _ _ _ hlead hpick
    refine headed_builds hfit hlead fun us k p hp => ?_
    obtain ⟨hk, hbuilds⟩ := (hpick (look us)).left k p hp
    exact ⟨fun before => hk before us, hbuilds⟩

end Combinators

/-! ## Whole files -/

section Whole

variable {G : Condition} {P : Kind → List Tree → Prop}

/-- What members need, for a property that has something to say about enumerations, methods and
properties at most. -/
theorem Fitting.outer (hfit : Fitting G P)
    (hfree : ∀ k, k ∉ [.enumDeclaration, .methodDeclaration, .propertyDeclaration] → ∀ cs, P k cs)
    {self : Rule → Parser} (hs : ∀ r, Builds G P (self r)) :
    Outer (Alone (Builds G P)) (Tops G P) (fun _ _ => True) self self := by
  have C := builds_congruence hfit
  have hF {k : Kind} (hk : k ∉ [.enumDeclaration, .methodDeclaration, .propertyDeclaration])
      (p : Parser) : Tops G P k p := fun _ _ _ => hfree k hk _
  have hrules : Rules (Alone (Builds G P)) (Tops G P) self self :=
    .but (by decide) (fun k hk => hF hk) hs
  refine C.outerOver (fun k hk => hF fun h => hk (by simp_all)) hs
    (.of_free (fun k hk => hF (by revert k; decide)) self)
    (block_congr C hrules (hF (k := .block) (by decide) _) (stands_trivial self) (stands_trivial self))
    (binaryPhrase_congr C hrules (hF (by decide)))
    (suffixPhrase_congr C hrules (hF (by decide)) (stands_trivial self) (stands_trivial self))
    (typePhrase_congr C (hF (by decide)) (hF (by decide)) (hs .type)) ?_
    (stands_trivial self) (stands_trivial self)
  exact node_congr C (hF (k := .enumMemberDeclaration) (by decide) _) (cons_congr C
    (attributeLists_congr C hrules)
    (cons_congr C (expect_congr C)
      (last_congr C (given_congr C (.ahead .eq) (equalsValue_congr C hrules)))))

/-- A property that each depth hands on to the next holds at every depth. -/
theorem Fitting.atDepth (hfit : Fitting G P)
    (hground : ∀ n, (∀ r, Builds G P (unfold n r)) →
      Ground (Alone (Builds G P)) (Tops G P) (fun _ _ => True) (unfold n) (unfold n))
    (n : Nat) (r : Rule) : Builds G P (unfold n r) := by
  induction n generalizing r with
  | zero => exact fun _ _ => trivial
  | succ n ih => exact phrase_congr (builds_congruence hfit) (hground n ih) r

/-- **A property that each depth hands on to the next holds of the nodes of a file.** -/
theorem Fitting.ofSource (hfit : Fitting G P)
    (hground : ∀ n, (∀ r, Builds G P (unfold n r)) →
      Ground (Alone (Builds G P)) (Tops G P) (fun _ _ => True) (unfold n) (unfold n))
    (hunit : ∀ cs, P .compilationUnit cs) : Builds G P source := by
  intro ts
  generalize hn : rulesPerToken * (ts.length + 1) = n
  have hdeclarations := declarations_congr (builds_congruence hfit)
    (hground n (hfit.atDepth hground n)).toOuter
  unfold source
  rw [hn]
  refine under_builds (fun _ _ _ => hunit _) ?_ ts
  exact Builds.seq hfit.parts hdeclarations (Builds.seq hfit.parts
    (fun _ _ => everyNodeAmong_leaves _ _)
    (Builds.seq hfit.parts (fun _ _ => everyNodeAmong_leaves _ _) fun _ _ => trivial))

end Whole

end CodeMend.Parse

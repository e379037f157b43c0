import CodeMend.Proofs.Parser.Standing

/-!
# Trivia has no say in the structure

Two texts whose significant tokens are the same, and in which the same right shifts are written
without a gap, have trees that differ in trivia only, provided that no parameter of the first is
empty (`parse_blind`).  This covers texts with errors; a text without errors has no empty parameter
(`parse_insensitive`).

The grammar looks at what comes next through tests that pass over trivia, but in some places it asks
whether a step has taken anything at all, trivia included.  For most steps that is the same question
as whether it took a significant token (`Steady`).  In a loop with recovery a step may take nothing
but trivia; it is then taken again until it is stuck, so the recovery is only put off
(`recover_drift`).

An empty parameter is the exception: whether a lambda recovers from one depends on the trivia before
it (`parse_not_blind`).
-/

namespace CodeMend

namespace Parse

open Tree

/-! ## Steps that agree -/

/-- What two steps from tokens that look the same have in common. -/
structure Agrees (s : Step) (us : List Token) (t : Step) : Prop where
  messages : t.errors.map SyntaxError.message = s.errors.map SyntaxError.message
  built : bareAll t.built = bareAll s.built
  view : view t.rest = view s.rest
  ended : Ended t.rest
  suffix : t.rest <:+ us

/-- A step that is not cut and whose parameters all have a token. -/
structure Step.Whole (s : Step) : Prop where
  uncut : s.cut = false
  manned : EveryNodeAmong Manned s.built

/-- A parser to which trivia makes no difference where it is not cut and leaves no parameter
empty. -/
def Insensitive (p : Parser) : Prop :=
  ∀ ts us, view us = view ts → Ended us → (p ts).Whole → (p us).cut = false →
    Agrees (p ts) us (p us)

/-- Both of two steps are whole if the two together are. -/
theorem Step.Whole.andThen {s : Step} {p : Parser} (h : (s.andThen p).Whole) :
    s.Whole ∧ (p s.rest).Whole := by
  obtain ⟨hs, hp⟩ := everyNodeAmong_append.1 h.manned
  obtain ⟨hsCut, hpCut⟩ := cut_andThen h.uncut
  exact ⟨⟨hsCut, hs⟩, ⟨hpCut, hp⟩⟩

/-- Whether parameters have a token is not a matter of trivia. -/
theorem everyNode_bare :
    (∀ t : Tree, t.bare.EveryNode Manned ↔ t.EveryNode Manned) ∧
    ∀ ts, EveryNodeAmong Manned (bareAll ts) ↔ EveryNodeAmong Manned ts := by
  apply Tree.induct
  · exact fun _ _ => Iff.rfl
  · intro k cs ih
    have hmanned : Manned k (bareAll cs) ↔ Manned k cs := by
      simp [Manned, tokens_bare.2, Tree.significant]
    exact and_congr hmanned ih
  · exact Iff.rfl
  · intro t ts ht hts
    cases htrivia : t.isTrivia with
    | true =>
        cases t with
        | token k s => simpa [bareAll, htrivia, EveryNodeAmong, EveryNode] using hts
        | node k cs => cases htrivia
    | false => simpa [bareAll, htrivia, EveryNodeAmong] using and_congr ht hts

/-- A step that agrees with one whose parameters have tokens has such parameters itself. -/
theorem Agrees.manned {s t : Step} {us : List Token} (h : Agrees s us t)
    (hs : EveryNodeAmong Manned s.built) : EveryNodeAmong Manned t.built := by
  rw [← everyNode_bare.2, h.built, everyNode_bare.2]
  exact hs

/-- Whether the end of the file is to come can be seen. -/
theorem ended_iff (ts : List Token) : Ended ts ↔ ∃ v ∈ view ts, v.1 = .endOfFile := by
  induction ts with
  | nil => simp [Ended, view]
  | cons t ts ih =>
      have hcons : Ended (t :: ts) ↔ t.kind = .endOfFile ∨ Ended ts := by simp [Ended]
      rw [hcons, ih]
      cases htrivia : t.kind.isTrivia with
      | true =>
          have hne : t.kind ≠ .endOfFile := by
            rintro hkind
            rw [hkind] at htrivia
            cases htrivia
          simp [view_cons_of_trivia ts htrivia, hne]
      | false => simp [view_cons ts htrivia]

/-- Of two rows that look the same both have the end of the file to come, or neither. -/
theorem Ended.of_view {ts us : List Token} (h : Ended ts) (hview : view us = view ts) : Ended us := by
  rw [ended_iff, hview, ← ended_iff]
  exact h

/-- The end of the file is still to come behind trivia that are put in place. -/
theorem flush_ended {ts : List Token} (h : Ended ts) : Ended (flush ts).rest :=
  h.of_view (view_flush ts)

/-- Behind the trivia a suffix of the row is left. -/
theorem flush_suffix (ts : List Token) : (flush ts).rest <:+ ts := List.dropWhile_suffix _

/-- Doing nothing agrees from rows that look the same. -/
theorem agrees_of_idle {ts us : List Token} (hview : view us = view ts) (hended : Ended us) :
    Agrees (done ts) us (done us) := ⟨rfl, rfl, hview, hended, List.suffix_rfl⟩

/-- Putting trivia in place agrees, however many there are. -/
theorem flush_agrees {ts us : List Token} (hview : view us = view ts) (hended : Ended us) :
    Agrees (flush ts) us (flush us) where
  messages := rfl
  built := by rw [bareAll_flush, bareAll_flush]
  view := by rw [view_flush, view_flush, hview]
  ended := flush_ended hended
  suffix := flush_suffix us

/-- Two pairs of steps that agree, one behind the other, agree. -/
theorem Agrees.andThen {s t : Step} {us : List Token} {p q : Parser} (h : Agrees s us t)
    (hrest : Agrees (p s.rest) t.rest (q t.rest)) : Agrees (s.andThen p) us (t.andThen q) where
  messages := by
    show (t.errors ++ _).map _ = (s.errors ++ _).map _
    rw [List.map_append, List.map_append, h.messages, hrest.messages]
  built := by
    show bareAll (t.built ++ _) = bareAll (s.built ++ _)
    rw [bareAll_append, bareAll_append, h.built, hrest.built]
  view := hrest.view
  ended := hrest.ended
  suffix := hrest.suffix.trans h.suffix

/-- An insensitive parser may follow steps that agree. -/
theorem Insensitive.andThen {p q : Parser} (hq : Insensitive q) {ts us : List Token}
    (h : Agrees (p ts) us (p us)) (hwhole : ((p ts).andThen q).Whole)
    (hcut : ((p us).andThen q).cut = false) :
    Agrees ((p ts).andThen q) us ((p us).andThen q) :=
  h.andThen (hq _ _ h.view h.ended hwhole.andThen.2 (cut_andThen hcut).2)

/-- Insensitive parsers in order are insensitive. -/
theorem Insensitive.seq {p q : Parser} (hp : Insensitive p) (hq : Insensitive q) :
    Insensitive (fun ts => (p ts).andThen q) := by
  intro ts us hview hended hwhole hcut
  have h := hp ts us hview hended hwhole.andThen.1 (cut_andThen hcut).1
  exact hq.andThen h hwhole hcut

/-- A choice of insensitive parsers by a blind look is insensitive. -/
theorem Insensitive.choose {α : Type} {l : List Token → α} {f : α → Parser} (hl : Blind l)
    (hf : ∀ a, Insensitive (f a)) : Insensitive (fun ts => f (l ts) ts) := by
  intro ts us hview hended hwhole hcut
  dsimp only at hcut ⊢
  rw [hl us ts hview] at hcut ⊢
  exact hf _ ts us hview hended hwhole hcut

/-- Doing nothing is insensitive. -/
theorem done_insensitive : Insensitive done := fun _ _ hview hended _ _ =>
  agrees_of_idle hview hended

/-- Putting trivia in place makes no difference but in trivia. -/
theorem flush_insensitive : Insensitive flush := fun _ _ hview hended _ _ =>
  flush_agrees hview hended

/-- A complaint has the same message. -/
theorem complain_insensitive (message : String) : Insensitive (complain message) :=
  fun _ _ hview hended _ _ => ⟨rfl, rfl, hview, hended, List.suffix_rfl⟩

/-- The token that is taken, as it is seen. -/
theorem take_view {ts : List Token} (hready : Ready ts) (hend : atEnd ts = false) :
    ∃ t rest, ts = t :: rest ∧ take ts = ⟨[leaf t], [], rest, false⟩ ∧
      ∃ shift, view ts = (t.kind, t.text, shift) :: view rest := by
  obtain ⟨t, rest, rfl, -, htake⟩ := take_eq hready hend
  exact ⟨t, rest, rfl, htake, _, view_cons rest (hready t rfl)⟩

/-- The token taken from either row is the first that can be seen, and what is seen behind it is
the same. At the end of the file neither row has one. -/
theorem bump_insensitive : Insensitive bump := by
  intro ts us hview hended _ _
  cases hend : atEnd ts with
  | true =>
      have hend' : atEnd us = true := (Blind.atEnd us ts hview).trans hend
      rw [bump_eq_flush hend, bump_eq_flush hend']
      exact flush_agrees hview hended
  | false =>
      have hend' : atEnd us = false := (Blind.atEnd us ts hview).trans hend
      show Agrees (all [flush, take] ts) us (all [flush, take] us)
      rw [all_pair]
      have hflush := flush_agrees hview hended
      refine hflush.andThen ?_
      obtain ⟨t, rest, hts, htake, shift, htview⟩ :=
        take_view (flush_ready ts) (by rw [flush_atEnd, hend])
      obtain ⟨u, rest', hus, htake', shift', huview⟩ :=
        take_view (flush_ready us) (by rw [flush_atEnd, hend'])
      have hcons := huview.symm.trans (hflush.view.trans htview)
      obtain ⟨hhead, hrest⟩ := List.cons.inj hcons
      obtain ⟨hkind, htext⟩ : u.kind = t.kind ∧ u.text = t.text := by
        simp only [Prod.mk.injEq] at hhead
        exact ⟨hhead.1, hhead.2.1⟩
      have hne : u.kind ≠ .endOfFile := by
        obtain ⟨u', rest'', hus', hne, -⟩ := take_eq (flush_ready us) (by rw [flush_atEnd, hend'])
        rw [hus] at hus'
        cases hus'
        exact hne
      rw [htake, htake']
      refine ⟨rfl, ?_, hrest, ?_, ?_⟩
      · simp only [leaf, hkind, htext]
      · obtain ⟨e, he, heof⟩ := hflush.ended
        rw [hus] at he
        rcases List.mem_cons.1 he with rfl | he
        · exact absurd heof hne
        · exact ⟨e, he, heof⟩
      · rw [hus]
        exact List.suffix_cons u rest'

/-- A node over what an insensitive parser builds; a parameter among such nodes has a token by
assumption. -/
theorem under_insensitive {k : Kind} {p : Parser} (hp : Insensitive p) :
    Insensitive (under k p) := by
  intro ts us hview hended hwhole hcut
  have h := hp ts us hview hended ⟨hwhole.uncut, hwhole.manned.1.2⟩ hcut
  refine ⟨h.messages, ?_, h.view, h.ended, h.suffix⟩
  show bareAll [.node k (p us).built] = bareAll [.node k (p ts).built]
  rw [bareAll_node, bareAll_node, h.built]

/-- Skipping a token complains about the same and takes the same token. -/
theorem skip_insensitive (message : String) : Insensitive (skip message) := by
  have hnode : Insensitive (node .error [bump]) :=
    flush_insensitive.seq ((under_insensitive (bump_insensitive.seq done_insensitive)).seq
      done_insensitive)
  refine Insensitive.choose (f := fun b ts => if b then complain message ts
    else all [complain message, node .error [bump]] ts) .atEnd fun b => ?_
  cases b with
  | true => exact complain_insensitive message
  | false => exact (complain_insensitive message).seq (hnode.seq done_insensitive)

/-! ## Being stuck -/

/-- A step that is stuck leaves its row as it is. -/
theorem Agrees.rest_eq_of_stuck {s t : Step} {us : List Token} (h : Agrees s us t)
    (hstuck : stuck us t = true) : t.rest = us :=
  h.suffix.eq_of_length (by simpa [stuck] using hstuck)

/-- A steady step is stuck exactly if what can be seen has not changed. -/
theorem Steady.stuck_iff {p : Parser} (hp : Insensitive p) (hsteady : Steady p) {ts : List Token}
    (hended : Ended ts) (hwhole : (p ts).Whole) :
    stuck ts (p ts) = true ↔ view (p ts).rest = view ts := by
  have hself := hp ts ts rfl hended hwhole hwhole.uncut
  constructor
  · intro hstuck
    rw [hself.rest_eq_of_stuck hstuck]
  · intro hview
    have hrest := (hsteady ts hended hwhole.uncut hwhole.manned).resolve_right (absurd hview)
    rw [stuck, hrest]
    exact beq_self_eq_true _

/-- So it is stuck from either of two rows that look the same, or from neither. -/
theorem Steady.stuck_eq {p : Parser} (hp : Insensitive p) (hsteady : Steady p)
    {ts us : List Token} (hview : view us = view ts) (hended : Ended us)
    (hwhole : (p ts).Whole) (hcut : (p us).cut = false) :
    stuck us (p us) = stuck ts (p ts) := by
  have hagrees := hp ts us hview hended hwhole hcut
  have hended' : Ended ts := hended.of_view hview.symm
  rw [Bool.eq_iff_iff, hsteady.stuck_iff hp hended ⟨hcut, hagrees.manned hwhole.manned⟩,
    hsteady.stuck_iff hp hended' hwhole, hagrees.view, hview]

/-- What comes before a fallback is whole if all of it is. -/
theorem orWhenStuck_whole {p q : Parser} {ts : List Token} (h : (orWhenStuck p q ts).Whole) :
    (p ts).Whole := by
  unfold orWhenStuck at h
  dsimp only at h
  split at h
  · exact h.andThen.1
  · exact h

/-- What comes before a fallback is not cut if all of it is not. -/
theorem orWhenStuck_cut {p q : Parser} {ts : List Token}
    (hcut : (orWhenStuck p q ts).cut = false) : (p ts).cut = false := by
  unfold orWhenStuck at hcut
  dsimp only at hcut
  split at hcut
  · exact (cut_andThen hcut).1
  · exact hcut

/-- A fallback is entered from both rows or from neither if what comes before it is steady, so
it makes no difference. -/
theorem orWhenStuck_insensitive {p q : Parser} (hsteady : Steady p) (hp : Insensitive p)
    (hq : Insensitive q) : Insensitive (orWhenStuck p q) := by
  intro ts us hview hended hwhole hcut
  have hpWhole := orWhenStuck_whole hwhole
  have hpCut := orWhenStuck_cut hcut
  have hagrees := hp ts us hview hended hpWhole hpCut
  have hstuck := hsteady.stuck_eq hp hview hended hpWhole hpCut
  unfold orWhenStuck at hwhole hcut ⊢
  dsimp only at hwhole hcut ⊢
  rw [hstuck] at hcut ⊢
  by_cases h : stuck ts (p ts) = true
  · simp only [if_pos h] at hwhole hcut ⊢
    exact hq.andThen hagrees hwhole hcut
  · simp only [if_neg h] at hwhole hcut ⊢
    exact hagrees

/-! ## Loops -/

/-- What is asked of a turn: it agrees with a turn from what looks the same, and both ask for
another turn or neither does. -/
def TurnInsensitive (turn : List Token → Turn) : Prop :=
  ∀ ts us, view us = view ts → Ended us → (turn ts).step.Whole → (turn us).step.cut = false →
    Agrees (turn ts).step us (turn us).step ∧ (turn us).again = (turn ts).again

/-- Loops from rows that look the same make the same turns, whatever their bounds, by induction
on the bound of the first. A loop that is not cut ends where its test fails, and the test looks
the same from both rows. -/
theorem turns_insensitive {look : Look} {turn : List Token → Turn} (hlook : Blind look)
    (hturn : TurnInsensitive turn) (n m : Nat) (ts us : List Token) (hview : view us = view ts)
    (hended : Ended us) (hwhole : (turns look turn n ts).Whole)
    (hcut : (turns look turn m us).cut = false) :
    Agrees (turns look turn n ts) us (turns look turn m us) := by
  induction n generalizing m ts us with
  | zero =>
      have hstop := turns_zero hwhole.uncut
      rw [turns_of_not 0 hstop, turns_of_not m ((hlook us ts hview).trans hstop)]
      exact agrees_of_idle hview hended
  | succ n ih =>
      cases hlooks : look ts with
      | false =>
          rw [turns_of_not _ hlooks, turns_of_not m ((hlook us ts hview).trans hlooks)]
          exact agrees_of_idle hview hended
      | true =>
          have hlooks' : look us = true := (hlook us ts hview).trans hlooks
          cases m with
          | zero => rw [turns_zero hcut] at hlooks'; cases hlooks'
          | succ m =>
              rw [turns_succ n hlooks] at hwhole ⊢
              rw [turns_succ m hlooks'] at hcut ⊢
              have hturnWhole : (turn ts).step.Whole := by
                split at hwhole
                · exact hwhole.andThen.1
                · exact hwhole
              have hturnCut : (turn us).step.cut = false := by
                split at hcut
                · exact (cut_andThen hcut).1
                · exact hcut
              obtain ⟨hagrees, hagain⟩ := hturn ts us hview hended hturnWhole hturnCut
              rw [hagain] at hcut ⊢
              by_cases h : (turn ts).again = true
              · rw [if_pos h] at hwhole hcut
                rw [if_pos h, if_pos h]
                exact hagrees.andThen (ih m _ _ hagrees.view hagrees.ended hwhole.andThen.2
                  (cut_andThen hcut).2)
              · rw [if_neg h, if_neg h]
                exact hagrees

/-- A turn made of insensitive parsers is insensitive, if its items are steady or being stuck
decides nothing. -/
theorem turnOf_insensitive {α β : Type} {first : List Token → α} {second : List Token → β}
    {item : α → Parser} {next : α → Bool → β → Parser} {again : α → Bool → β → Bool}
    (hfirst : Blind first) (hsecond : Blind second) (hitem : ∀ a, Insensitive (item a))
    (hnext : ∀ a stuck b, Insensitive (next a stuck b))
    (hstuck : (∀ a, Steady (item a)) ∨
      ∀ a b, next a true b = next a false b ∧ again a true b = again a false b) :
    TurnInsensitive (turnOf first item second next again) := by
  intro ts us hview hended hwhole hcut
  unfold turnOf at hwhole hcut ⊢
  dsimp only at hwhole hcut ⊢
  rw [hfirst us ts hview] at hcut ⊢
  have hitemWhole := hwhole.andThen.1
  have hitemCut := (cut_andThen hcut).1
  have hagrees := hitem (first ts) ts us hview hended hitemWhole hitemCut
  rw [hsecond _ _ hagrees.view] at hcut ⊢
  have hsame : next (first ts) (stuck us (item (first ts) us)) (second (item (first ts) ts).rest) =
        next (first ts) (stuck ts (item (first ts) ts)) (second (item (first ts) ts).rest) ∧
      again (first ts) (stuck us (item (first ts) us)) (second (item (first ts) ts).rest) =
        again (first ts) (stuck ts (item (first ts) ts)) (second (item (first ts) ts).rest) := by
    rcases hstuck with hsteady | hsame
    · rw [(hsteady (first ts)).stuck_eq (hitem _) hview hended hitemWhole hitemCut]
      exact ⟨rfl, rfl⟩
    · have hboth := hsame (first ts) (second (item (first ts) ts).rest)
      cases stuck us (item (first ts) us) <;> cases stuck ts (item (first ts) ts) <;>
        simp [hboth.1, hboth.2]
  rw [hsame.1] at hcut ⊢
  exact ⟨(hnext _ _ _).andThen hagrees hwhole hcut, hsame.2⟩

/-! ## Loops with recovery -/

/-- A loop with recovery, at most `n` turns of it. -/
def recoveries (look : Look) (p : Parser) (message : String) (n : Nat) : Parser :=
  turns look (fun us => ⟨orWhenStuck p (skip message) us, true⟩) n

/-- The first turn of a loop with recovery, and the others. -/
theorem recoveries_succ {look : Look} {p : Parser} {message : String} (n : Nat) {ts : List Token}
    (hlook : look ts = true) :
    recoveries look p message (n + 1) ts =
      (orWhenStuck p (skip message) ts).andThen (recoveries look p message n) := by
  rw [recoveries, turns_succ n hlook, if_pos rfl]
  rfl

/-- A turn that gets on is the step itself. -/
theorem recover_eq_of_view_ne {p q : Parser} {ts : List Token} (h : view (p ts).rest ≠ view ts)
    (hsuffix : (p ts).rest <:+ ts) : orWhenStuck p q ts = p ts := by
  refine if_neg fun hstuck => h ?_
  rw [hsuffix.eq_of_length (by simpa [stuck] using hstuck)]

/-- Steps that differ in trivia that is put in place, and in nothing else. -/
structure Step.Drifts (s t : Step) : Prop where
  errors : t.errors = s.errors
  built : bareAll t.built = bareAll s.built
  rest : t.rest = s.rest
  cut : t.cut = s.cut

/-- Steps that differ in trivia that is put in place are whole together: trivia are no
parameters. -/
theorem Step.Drifts.whole {s t : Step} (h : s.Drifts t) (hs : s.Whole) : t.Whole :=
  ⟨h.cut.trans hs.uncut, by rw [← everyNode_bare.2, h.built, everyNode_bare.2]; exact hs.manned⟩

/-- Such a difference does not matter to whether steps agree. -/
theorem Agrees.of_drifts {s s' t t' : Step} {us us' : List Token} (h : Agrees s' us' t')
    (hs : s.Drifts s') (ht : t.Drifts t') (hsuffix : us' <:+ us) : Agrees s us t where
  messages := by rw [← hs.errors, ← ht.errors, h.messages]
  built := by rw [← hs.built, ← ht.built, h.built]
  view := by rw [← hs.rest, ← ht.rest, h.view]
  ended := ht.rest ▸ h.ended
  suffix := ht.rest ▸ h.suffix.trans hsuffix

/-- A row of nothing but trivia has no parameters. -/
theorem manned_of_bareAll {ts : List Tree} (h : bareAll ts = []) : EveryNodeAmong Manned ts := by
  rw [← everyNode_bare.2, h]
  trivial

/-- A step that does not get on is taken again and again, past trivia, until it is stuck: then the
next token is skipped. -/
theorem recover_drift {p : Parser} (hp : Insensitive p) (hdrifting : Drifting p) {look : Look}
    (hlook : Blind look) {message : String} (n : Nat) {ts : List Token} (hlooks : look ts = true)
    (hended : Ended ts) (hview : view (p ts).rest = view ts)
    (hcut : (recoveries look p message n ts).cut = false) :
    ∃ m us, m < n ∧ view us = view ts ∧ us <:+ ts ∧
      (recoveries look p message n ts).Drifts
        ((skip message us).andThen (recoveries look p message m)) := by
  induction n generalizing ts with
  | zero =>
      rw [turns_zero hcut] at hlooks
      cases hlooks
  | succ n ih =>
      rw [recoveries_succ n hlooks] at hcut ⊢
      obtain ⟨hturnCut, hrestCut⟩ := cut_andThen hcut
      have hpCut := orWhenStuck_cut hturnCut
      obtain ⟨hbare, herrors⟩ := hdrifting ts hended hpCut hview
      have hpWhole : (p ts).Whole := ⟨hpCut, manned_of_bareAll hbare⟩
      have hsuffix := (hp ts ts rfl hended hpWhole hpCut).suffix
      by_cases hstuck : stuck ts (p ts) = true
      · have hrest : (p ts).rest = ts := hsuffix.eq_of_length (by simpa [stuck] using hstuck)
        have hturn : orWhenStuck p (skip message) ts = (p ts).andThen (skip message) := if_pos hstuck
        rw [hturn]
        refine ⟨n, ts, Nat.lt_succ_self n, rfl, List.suffix_rfl, ?_⟩
        exact ⟨by simp [Step.andThen, herrors, hrest],
          by simp [Step.andThen, bareAll_append, hbare, hrest], by simp [Step.andThen, hrest],
          by simp [Step.andThen, hpCut, hrest]⟩
      · have hturn : orWhenStuck p (skip message) ts = p ts := if_neg hstuck
        rw [hturn] at hrestCut ⊢
        have hlooks' : look (p ts).rest = true := (hlook _ _ hview).trans hlooks
        have hended' : Ended (p ts).rest := hended.of_view hview
        have hnextCut : (p (p ts).rest).cut = false := by
          cases n with
          | zero =>
              rw [turns_zero hrestCut] at hlooks'
              cases hlooks'
          | succ n =>
              rw [recoveries_succ n hlooks'] at hrestCut
              exact orWhenStuck_cut (cut_andThen hrestCut).1
        -- the next turn does to what can be seen what this one did: nothing
        have hview' : view (p (p ts).rest).rest = view (p ts).rest :=
          (hp ts (p ts).rest hview hended' hpWhole hnextCut).view
        obtain ⟨m, us, hm, husView, husSuffix, hdrifts⟩ := ih hlooks' hended' hview' hrestCut
        refine ⟨m, us, Nat.lt_succ_of_lt hm, husView.trans hview, husSuffix.trans hsuffix, ?_⟩
        exact ⟨by simp [Step.andThen, herrors, ← hdrifts.errors],
          by simp [Step.andThen, bareAll_append, hbare, ← hdrifts.built], hdrifts.rest,
          by simp [Step.andThen, hpCut, ← hdrifts.cut]⟩

/-- **A loop with recovery makes no difference to trivia**, even around a step that may put
trivia in place before it is stuck. By induction on the turns of the first loop: where the step
gets on, both loops take the same turn; where it does not, each loop runs through its own trivia
until it skips the same token. -/
theorem recover_insensitive {p : Parser} (hp : Insensitive p) (hdrifting : Drifting p) {look : Look}
    (hlook : Blind look) (message : String) (n m : Nat) (ts us : List Token)
    (hview : view us = view ts) (hended : Ended us)
    (hwhole : (recoveries look p message n ts).Whole)
    (hcut : (recoveries look p message m us).cut = false) :
    Agrees (recoveries look p message n ts) us (recoveries look p message m us) := by
  induction n using Nat.strongRecOn generalizing m ts us with
  | ind n ih =>
      cases hlooks : look ts with
      | false =>
          have hlooks' : look us = false := (hlook us ts hview).trans hlooks
          rw [recoveries, recoveries, turns_of_not n hlooks, turns_of_not m hlooks']
          exact agrees_of_idle hview hended
      | true =>
          have hlooks' : look us = true := (hlook us ts hview).trans hlooks
          have hended' : Ended ts := hended.of_view hview.symm
          obtain ⟨n, rfl⟩ : ∃ k, n = k + 1 := by
            cases n with
            | zero => rw [turns_zero hwhole.uncut] at hlooks; cases hlooks
            | succ k => exact ⟨k, rfl⟩
          obtain ⟨m, rfl⟩ : ∃ k, m = k + 1 := by
            cases m with
            | zero => rw [turns_zero hcut] at hlooks'; cases hlooks'
            | succ k => exact ⟨k, rfl⟩
          have hpWhole : (p ts).Whole := by
            rw [recoveries_succ n hlooks] at hwhole
            exact orWhenStuck_whole hwhole.andThen.1
          have hpCut : (p us).cut = false := by
            rw [recoveries_succ m hlooks'] at hcut
            exact orWhenStuck_cut (cut_andThen hcut).1
          have hagrees := hp ts us hview hended hpWhole hpCut
          by_cases hstays : view (p ts).rest = view ts
          · -- both drift until they are stuck, and skip the same token
            have hstays' : view (p us).rest = view us := by rw [hagrees.view, hstays, hview]
            obtain ⟨k, ts', hk, htsView, -, hdrifts⟩ :=
              recover_drift hp hdrifting hlook (n + 1) hlooks hended' hstays hwhole.uncut
            obtain ⟨k', us', -, husView, husSuffix, hdrifts'⟩ :=
              recover_drift hp hdrifting hlook (m + 1) hlooks' hended hstays' hcut
            have hview' : view us' = view ts' := by rw [husView, htsView, hview]
            have hskipWhole := hdrifts.whole hwhole
            have hskipCut := hdrifts'.cut.trans hcut
            have hskips := skip_insensitive message ts' us' hview' (hended.of_view husView)
              hskipWhole.andThen.1 (cut_andThen hskipCut).1
            have hboth := hskips.andThen (ih k hk k' _ _ hskips.view hskips.ended
              hskipWhole.andThen.2 (cut_andThen hskipCut).2)
            exact hboth.of_drifts hdrifts hdrifts' husSuffix
          · -- both get on by the step itself
            have hmoves : view (p us).rest ≠ view us := by rwa [hagrees.view, hview]
            have hturn : orWhenStuck p (skip message) ts = p ts :=
              recover_eq_of_view_ne hstays (hp ts ts rfl hended' hpWhole hpWhole.uncut).suffix
            have hturn' : orWhenStuck p (skip message) us = p us :=
              recover_eq_of_view_ne hmoves hagrees.suffix
            rw [recoveries_succ n hlooks, hturn] at hwhole ⊢
            rw [recoveries_succ m hlooks', hturn'] at hcut ⊢
            exact hagrees.andThen (ih n (Nat.lt_succ_self n) m _ _ hagrees.view hagrees.ended
              hwhole.andThen.2 (cut_andThen hcut).2)

/-! ## Nodes -/

/-- A step that may be put into a node is whole if all of it is. -/
theorem extendIf_whole {p : Parser} {look : Look} {k : Kind} {ps : List Parser} {ts : List Token}
    (h : (extendIf p look k ps ts).Whole) : (p ts).Whole := by
  unfold extendIf at h
  dsimp only at h
  split at h
  · exact ⟨(Bool.or_eq_false_iff.1 h.uncut).1, (everyNodeAmong_append.1 h.manned.1.2).1⟩
  · exact h

/-- Whether a node is put over a step is decided by a blind test behind it, where both rows look
the same. -/
theorem extendIf_insensitive {p : Parser} {look : Look} {k : Kind} {ps : List Parser}
    (hlook : Blind look) (hp : Insensitive p) (hps : Insensitive (all ps)) :
    Insensitive (extendIf p look k ps) := by
  intro ts us hview hended hwhole hcut
  have hagrees := hp ts us hview hended (extendIf_whole hwhole) (extendIf_cut hcut)
  have hlooks := hlook _ _ hagrees.view
  unfold extendIf at hwhole hcut ⊢
  dsimp only at hwhole hcut ⊢
  rw [hlooks] at hcut ⊢
  by_cases h : look (p ts).rest = true
  · simp only [if_pos h] at hwhole hcut ⊢
    exact under_insensitive (k := k) (p := fun ts => (p ts).andThen (all ps)) (hp.seq hps) ts us
      hview hended hwhole hcut
  · simp only [if_neg h] at hwhole hcut ⊢
    exact hagrees

/-- What is wrapped stays in what is built. -/
theorem everyNodeAmong_of_wraps {P : Kind → List Tree → Prop}
    {pick : List Token → Option (Kind × List Parser)} (n : Nat) {built : List Tree}
    {ts : List Token} (h : EveryNodeAmong P (wraps pick n built ts).built) :
    EveryNodeAmong P built := by
  induction n generalizing built ts with
  | zero => exact h
  | succ n ih =>
      cases hpick : pick ts with
      | none => simpa only [wraps, hpick, emit] using h
      | some found =>
          simp only [wraps, hpick] at h
          exact (everyNodeAmong_append.1 (ih h).1.2).1

/-- What wraps an operand is told by a blind look, so both rows are wrapped in the same nodes,
by induction on the bound of the first. -/
theorem wraps_insensitive {α : Type} {l : List Token → α} {f : α → Option (Kind × List Parser)}
    (hl : Blind l) (hf : ∀ a k ps, f a = some (k, ps) → Insensitive (all ps)) (n m : Nat)
    (built built' : List Tree) (hbuilt : bareAll built' = bareAll built) (ts us : List Token)
    (hview : view us = view ts) (hended : Ended us)
    (hwhole : (wraps (fun ts => f (l ts)) n built ts).Whole)
    (hcut : (wraps (fun ts => f (l ts)) m built' us).cut = false) :
    Agrees (wraps (fun ts => f (l ts)) n built ts) us
      (wraps (fun ts => f (l ts)) m built' us) := by
  induction n generalizing m built built' ts us with
  | zero =>
      have hnone : f (l ts) = none := by simpa [wraps] using hwhole.uncut
      have hnone' : f (l us) = none := by rw [hl us ts hview, hnone]
      cases m with
      | zero => exact ⟨rfl, hbuilt, hview, hended, List.suffix_rfl⟩
      | succ m =>
          simp only [wraps, hnone']
          exact ⟨rfl, hbuilt, hview, hended, List.suffix_rfl⟩
  | succ n ih =>
      cases hfound : f (l ts) with
      | none =>
          have hnone' : f (l us) = none := by rw [hl us ts hview, hfound]
          simp only [wraps, hfound]
          cases m with
          | zero => exact ⟨rfl, hbuilt, hview, hended, List.suffix_rfl⟩
          | succ m =>
              simp only [wraps, hnone']
              exact ⟨rfl, hbuilt, hview, hended, List.suffix_rfl⟩
      | some found =>
          obtain ⟨k, ps⟩ := found
          have hfound' : f (l us) = some (k, ps) := by rw [hl us ts hview, hfound]
          cases m with
          | zero =>
              have hnone' : f (l us) = none := by simpa [wraps] using hcut
              rw [hnone'] at hfound'
              cases hfound'
          | succ m =>
              simp only [wraps, hfound, hfound'] at hwhole hcut ⊢
              obtain ⟨hpsCut, hrestCut⟩ := Bool.or_eq_false_iff.1 hwhole.uncut
              obtain ⟨hpsCut', hrestCut'⟩ := Bool.or_eq_false_iff.1 hcut
              have hmanned := (everyNodeAmong_append.1 (everyNodeAmong_of_wraps n hwhole.manned).1.2).2
              have hagrees := hf _ k ps hfound ts us hview hended ⟨hpsCut, hmanned⟩ hpsCut'
              have hnode : bareAll [.node k (built' ++ (all ps us).built)] =
                  bareAll [.node k (built ++ (all ps ts).built)] := by
                rw [bareAll_node, bareAll_node, bareAll_append, bareAll_append, hbuilt,
                  hagrees.built]
              have hrest := ih m _ _ hnode _ _ hagrees.view hagrees.ended
                ⟨hrestCut, hwhole.manned⟩ hrestCut'
              refine ⟨?_, hrest.built, hrest.view, hrest.ended, hrest.suffix.trans hagrees.suffix⟩
              rw [List.map_append, List.map_append, hagrees.messages, hrest.messages]

/-- An insensitive operand with what wraps it. -/
theorem wrapped_insensitive {α : Type} {l : List Token → α} {f : α → Option (Kind × List Parser)}
    {p : Parser} (hl : Blind l) (hp : Insensitive p)
    (hf : ∀ a k ps, f a = some (k, ps) → Insensitive (all ps)) :
    Insensitive (wrapped p (fun ts => f (l ts))) := by
  intro ts us hview hended hwhole hcut
  obtain ⟨hpCut, hrestCut⟩ := Bool.or_eq_false_iff.1 hwhole.uncut
  obtain ⟨hpCut', hrestCut'⟩ := Bool.or_eq_false_iff.1 hcut
  have hagrees := hp ts us hview hended ⟨hpCut, everyNodeAmong_of_wraps _ hwhole.manned⟩ hpCut'
  have hrest := wraps_insensitive hl hf _ _ _ _ hagrees.built _ _ hagrees.view hagrees.ended
    ⟨hrestCut, hwhole.manned⟩ hrestCut'
  refine ⟨?_, hrest.built, hrest.view, hrest.ended, hrest.suffix.trans hagrees.suffix⟩
  show ((p us).errors ++ _).map _ = ((p ts).errors ++ _).map _
  rw [List.map_append, List.map_append, hagrees.messages, hrest.messages]

/-- A steady lead is stuck in both rows or in neither, and what it belongs to is told by a blind
look behind it. -/
theorem headed_insensitive {α : Type} {lead : Parser} {look : List Token → α}
    {pick : α → Option (Kind × Parser)} {message : String} (hlook : Blind look)
    (hsteady : Steady lead) (hlead : Insensitive lead)
    (hpick : ∀ a k p, pick a = some (k, p) → Insensitive p) :
    Insensitive (headed lead look pick message) := by
  intro ts us hview hended hwhole hcut
  have hleadCut : (lead us).cut = false := by
    unfold headed at hcut
    dsimp only at hcut
    split at hcut
    · exact (cut_andThen hcut).1
    · split at hcut
      · exact hcut
      · exact (cut_andThen hcut).1
  have hleadWhole : (lead ts).Whole := by
    unfold headed at hwhole
    dsimp only at hwhole
    split at hwhole
    · exact (Step.Whole.andThen ⟨hwhole.uncut, hwhole.manned.1.2⟩).1
    · split at hwhole
      · exact hwhole
      · exact (Step.Whole.andThen (p := complain message) ⟨hwhole.uncut, hwhole.manned.1.2⟩).1
  have hagrees := hlead ts us hview hended hleadWhole hleadCut
  have hstuck := hsteady.stuck_eq hlead hview hended hleadWhole hleadCut
  have hlooks := hlook _ _ hagrees.view
  unfold headed at hwhole hcut ⊢
  dsimp only at hwhole hcut ⊢
  rw [hlooks, hstuck] at hcut ⊢
  cases hfound : pick (look (lead ts).rest) with
  | some found =>
      obtain ⟨k, p⟩ := found
      simp only [hfound] at hwhole hcut ⊢
      exact under_insensitive (k := k) (p := fun ts => (lead ts).andThen p)
        (hlead.seq (hpick _ k p hfound)) ts us hview hended hwhole hcut
  | none =>
      simp only [hfound] at hwhole hcut ⊢
      by_cases h : stuck ts (lead ts) = true
      · rw [if_pos h, if_pos h]
        exact hagrees
      · rw [if_neg h] at hwhole hcut
        rw [if_neg h, if_neg h]
        exact under_insensitive (k := .error) (p := fun ts => (lead ts).andThen (complain message))
          (hlead.seq (complain_insensitive message)) ts us hview hended hwhole hcut

/-! ## The grammar -/

/-- Making no difference to trivia is respected by the combinators. -/
theorem insensitive_congruence :
    Congruence (Alone Insensitive) (fun _ _ => True) Holds where
  done := done_insensitive
  complain := complain_insensitive
  flush := flush_insensitive
  bump := bump_insensitive
  seq := Insensitive.seq
  choose := Insensitive.choose
  under := fun _ hp => under_insensitive hp
  retry := fun hsteady _ hp hq => orWhenStuck_insensitive hsteady hp hq
  recover := fun message hlook hdrifting _ hp ts us =>
    recover_insensitive hp hdrifting hlook message _ _ ts us
  extend := fun hlook _ hp hps => extendIf_insensitive hlook hp hps
  loop := fun hlook hfirst hsecond hitem hnext hstuck ts us =>
    turns_insensitive hlook (turnOf_insensitive hfirst hsecond hitem hnext
      (hstuck.imp (fun h a => (h a).1) fun h a b => ⟨(h a b).1, (h a b).2.2⟩)) _ _ ts us
  wrap := fun hl hp hpick => wrapped_insensitive hl hp fun a k ps ha =>
    ((hpick a).left k (all ps) (by simp [ha])).2
  head := fun _ hsteady _ hlook hlead hpick =>
    headed_insensitive hlook hsteady hlead fun a k p ha => ((hpick a).left k p ha).2

/-- **To the rules trivia makes no difference.** -/
theorem unfold_insensitive (n : Nat) (r : Rule) : Insensitive (unfold n r) := by
  induction n generalizing r with
  | zero => exact fun ts us _ _ hwhole => nomatch hwhole.uncut
  | succ n ih =>
      exact phrase_congr insensitive_congruence
        (insensitive_congruence.ground ih (unfold_stands n) (unfold_stands n)) r

/-- Declarations are insensitive at every depth. -/
theorem declarations_insensitive (n : Nat) : Insensitive (declarations (unfold n)) :=
  declarations_congr insensitive_congruence (insensitive_congruence.ground (unfold_insensitive n)
    (unfold_stands n) (unfold_stands n)).toOuter

/-- The first token of rows that look the same makes the same leaf, if neither row starts with
trivia. -/
theorem bareAll_take_one {ts us : List Token} (hts : Ready ts) (hus : Ready us)
    (hview : view us = view ts) :
    bareAll ((us.take 1).map leaf) = bareAll ((ts.take 1).map leaf) := by
  cases ts with
  | nil =>
      cases us with
      | nil => rfl
      | cons u us =>
          rw [view_cons us (hus u rfl)] at hview
          cases hview
  | cons t ts =>
      rw [view_cons ts (hts t rfl)] at hview
      cases us with
      | nil => cases hview
      | cons u us =>
          rw [view_cons us (hus u rfl)] at hview
          obtain ⟨hhead, -⟩ := List.cons.inj hview
          simp only [Prod.mk.injEq] at hhead
          simp only [List.take_succ_cons, List.take_zero, List.map_cons, List.map_nil, leaf,
            hhead.1, hhead.2.1]

/-- The declarations of a file at a greater depth than the one that is given to it. -/
theorem declarations_deeper {ts : List Token} (hended : Ended ts) {n : Nat}
    (hn : rulesPerToken * (ts.length + 1) ≤ n) :
    declarations (unfold n) ts = declarations (unfold (rulesPerToken * (ts.length + 1))) ts ∧
      (declarations (unfold n) ts).cut = false := by
  have huncut := (declarations_keeps (safe_source ts) ts (room_source hended)).uncut
  have hsame := declarations_congr settles_congruence
    (settles_ground fun r => unfold_settles hn r).toOuter ts huncut
  exact ⟨hsame, by rw [hsame]; exact huncut⟩

/-- Whole files that look the same have the same complaints and the same trees but for trivia.
Their depths may differ, so the second is read at a depth that is enough for both. -/
theorem source_insensitive {ts us : List Token} (hended : Ended ts) (hview : view us = view ts)
    (hmanned : EveryNodeAmong Manned (source ts).built) :
    (source us).errors.map SyntaxError.message = (source ts).errors.map SyntaxError.message ∧
      bareAll (source us).built = bareAll (source ts).built := by
  obtain ⟨n, hn, hn'⟩ : ∃ n, rulesPerToken * (ts.length + 1) ≤ n ∧
      rulesPerToken * (us.length + 1) ≤ n := ⟨_, Nat.le_max_left _ _, Nat.le_max_right _ _⟩
  have hended' : Ended us := hended.of_view hview
  obtain ⟨hsame, hcut⟩ := declarations_deeper hended hn
  obtain ⟨hsame', hcut'⟩ := declarations_deeper hended' hn'
  obtain ⟨hunitErr, hunit⟩ := unit_eq (unfold (rulesPerToken * (ts.length + 1))) ts
  obtain ⟨hunitErr', hunit'⟩ := unit_eq (unfold (rulesPerToken * (us.length + 1))) us
  rw [← hsame] at hunitErr hunit
  rw [← hsame'] at hunitErr' hunit'
  unfold source at hmanned ⊢
  rw [hunit] at hmanned
  have hagrees := declarations_insensitive n ts us hview hended'
    ⟨hcut, (everyNodeAmong_append.1 hmanned.1.2).1⟩ hcut'
  refine ⟨by rw [hunitErr', hunitErr, hagrees.messages], ?_⟩
  have hflush : view (flush (declarations (unfold n) us).rest).rest =
      view (flush (declarations (unfold n) ts).rest).rest := by
    rw [view_flush, view_flush, hagrees.view]
  rw [hunit, hunit', bareAll_node, bareAll_node]
  simp only [bareAll_append, bareAll_flush, hagrees.built,
    bareAll_take_one (flush_ready _) (flush_ready _) hflush]

end Parse

open Tree

/-- The same for two texts, as their lexers see them. -/
theorem parse_agrees {text text' : String}
    (hview : Parse.view (lex text').1 = Parse.view (lex text).1)
    (hmanned : (parse text).1.EveryNode Parse.Manned) :
    (Parse.source (lex text').1).errors.map SyntaxError.message =
        (Parse.source (lex text).1).errors.map SyntaxError.message ∧
      (parse text').1.bare = (parse text).1.bare := by
  obtain ⟨hmessages, hbuilt⟩ := Parse.source_insensitive (lex_ended text) hview
    (by rw [source_eq]; exact ⟨hmanned, trivial⟩)
  refine ⟨hmessages, ?_⟩
  obtain ⟨cs, htree, -⟩ := parse_tree text
  obtain ⟨cs', htree', -⟩ := parse_tree text'
  rw [source_eq, source_eq, htree, htree', bareAll_node, bareAll_node] at hbuilt
  rw [htree, htree']
  exact (List.cons.inj hbuilt).1

/-- **Trivia has no say in the structure**, whether or not a text is well-formed, as long as none of
its parameters is empty. -/
theorem parse_blind {text text' : String}
    (hview : Parse.view (lex text').1 = Parse.view (lex text).1)
    (hmanned : (parse text).1.EveryNode Parse.Manned) :
    (parse text').1.bare = (parse text).1.bare := (parse_agrees hview hmanned).2

/-- Two ways to write a lambda whose body is missing. -/
theorem parse_blind_lambda :
    (parse "class C\x7bint x=(a,b)=>;").1.bare =
      (parse "class C /**/ \x7b\n int x = ( a , b\n) => ;").1.bare :=
  parse_blind (by decide +kernel) (by decide +kernel)

/-- **Trivia has a say where a lambda lacks a parameter.**  Without a blank the stray `1` is put under
an error node, behind a blank it is not. -/
theorem parse_not_blind : ¬ ∀ text text' : String,
    Parse.view (lex text').1 = Parse.view (lex text).1 →
      (parse text').1.bare = (parse text).1.bare := by
  intro h
  have heq := h "class C \x7b int x = (1) => 2; \x7d" "class C \x7b int x = ( 1) => 2; \x7d"
    (by decide +kernel)
  have hsame := congrArg (Tree.same (parse "class C \x7b int x = (1) => 2; \x7d").1.bare) heq
  revert hsame
  decide +kernel

/-- A node that is not empty and does not end with trivia has a significant token. -/
theorem manned_of_full (k : Kind) (cs : List Tree) (h : FullNode k cs) : Parse.Manned k cs := by
  intro _
  have hlast := List.getLast?_eq_some_getLast h.1
  exact ⟨_, List.getLast_mem h.1, h.2 _ hlast⟩

/-- A text that looks like one without errors to the parser, and that has none itself as far as its
tokens go, has no errors, and its tree differs in trivia only. -/
theorem parse_insensitive {text text' : String} (herr : (parse text).2 = [])
    (hlex : (lex text').2 = [])
    (hview : Parse.view (lex text').1 = Parse.view (lex text).1) :
    (parse text').2 = [] ∧ (parse text').1.bare = (parse text).1.bare := by
  have hsource : (Parse.source (lex text).1).errors = [] :=
    (List.append_eq_nil_iff.1 (SyntaxError.sortByStart_eq_nil.1 herr)).2
  obtain ⟨cs, htree, -, -, hfull⟩ := parse_tree text
  have hmanned : (parse text).1.EveryNode Parse.Manned := by
    rw [htree]
    exact ⟨nofun, (everyNode_mono manned_of_full).2 cs (hfull herr)⟩
  obtain ⟨hmessages, hbare⟩ := parse_agrees hview hmanned
  refine ⟨SyntaxError.sortByStart_eq_nil.2 (List.append_eq_nil_iff.2 ⟨hlex, ?_⟩), hbare⟩
  rw [hsource] at hmessages
  exact List.map_eq_nil_iff.1 hmessages

end CodeMend

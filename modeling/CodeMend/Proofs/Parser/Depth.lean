import CodeMend.Proofs.Parser.Grammar
import CodeMend.Proofs.Parser.Lossless

/-!
# Any depth that is enough gives the same

A rule that is unfolded deep enough is not cut, and then it does the same at any greater depth
(`unfold_settles`).  So a promise that the rules make where they have room holds wherever they are
not cut; one such promise is that a step takes a stretch of its tokens (`tiles_of_faithful`).
-/

namespace CodeMend.Parse

open Tree

/-! ## Greater depth -/

/-- Where `p` is not cut, `p'` does the same. -/
def Settles (p p' : Parser) : Prop := ∀ ts, (p ts).cut = false → p' ts = p ts

theorem cut_andThen {s : Step} {p : Parser} (h : (s.andThen p).cut = false) :
    s.cut = false ∧ (p s.rest).cut = false := Bool.or_eq_false_iff.1 h

theorem Settles.refl (p : Parser) : Settles p p := fun _ _ => rfl

theorem Settles.andThen {s s' : Step} {q q' : Parser} (hs : s' = s) (hq : Settles q q')
    (hcut : (s.andThen q).cut = false) : s'.andThen q' = s.andThen q := by
  subst hs
  have hrest := hq _ (cut_andThen hcut).2
  simp only [Step.andThen, hrest]

theorem Settles.seq {p p' q q' : Parser} (hp : Settles p p') (hq : Settles q q') :
    Settles (fun ts => (p ts).andThen q) (fun ts => (p' ts).andThen q') := by
  intro ts hcut
  exact Settles.andThen (hp ts (cut_andThen hcut).1) hq hcut

theorem under_settles {k : Kind} {p p' : Parser} (hp : Settles p p') :
    Settles (under k p) (under k p') := by
  intro ts hcut
  simp only [under, hp ts hcut]

/-- A fallback is entered at both depths or at neither, as what comes before it is the same
step. -/
theorem orWhenStuck_settles {p p' q q' : Parser} (hp : Settles p p') (hq : Settles q q') :
    Settles (orWhenStuck p q) (orWhenStuck p' q') := by
  intro ts hcut
  unfold orWhenStuck at hcut ⊢
  dsimp only at hcut ⊢
  split at hcut
  · next hstuck =>
    have hstep := hp ts (cut_andThen hcut).1
    rw [hstep, if_pos hstuck, if_pos hstuck]
    exact Settles.andThen rfl hq hcut
  · next hstuck => rw [hp ts hcut, if_neg hstuck, if_neg hstuck]

/-- A loop settles if its turns do, by induction on the turns that are left. -/
theorem turns_settles {look : Look} {turn turn' : List Token → Turn}
    (hturn : ∀ ts, (turn ts).step.cut = false → turn' ts = turn ts) (n : Nat) :
    Settles (turns look turn n) (turns look turn' n) := by
  induction n with
  | zero => exact Settles.refl _
  | succ n ih =>
      intro ts hcut
      unfold turns at hcut ⊢
      split at hcut
      · next hlook =>
        rw [if_pos hlook, if_pos hlook]
        dsimp only at hcut ⊢
        split at hcut
        · next hagain =>
          rw [hturn ts (cut_andThen hcut).1, if_pos hagain, if_pos hagain]
          exact Settles.andThen rfl ih hcut
        · next hagain => rw [hturn ts hcut, if_neg hagain, if_neg hagain]
      · next hlook => rw [if_neg hlook, if_neg hlook]

/-- A turn settles if its item and what follows it do. -/
theorem turnOf_settles {α β : Type} {first : List Token → α} {second : List Token → β}
    {item item' : α → Parser} {next next' : α → Bool → β → Parser} {again : α → Bool → β → Bool}
    (hitem : ∀ a, Settles (item a) (item' a))
    (hnext : ∀ a stuck b, Settles (next a stuck b) (next' a stuck b)) (ts : List Token)
    (hcut : (turnOf first item second next again ts).step.cut = false) :
    turnOf first item' second next' again ts = turnOf first item second next again ts := by
  unfold turnOf at hcut ⊢
  dsimp only at hcut ⊢
  have hstep := hitem (first ts) ts (cut_andThen hcut).1
  rw [hstep, Settles.andThen rfl (hnext _ _ _) hcut]

/-- A step that may be put into a node settles if it and what follows it do. -/
theorem extendIf_settles {p p' : Parser} {look : Look} {k : Kind} {ps ps' : List Parser}
    (hp : Settles p p') (hps : Settles (all ps) (all ps')) :
    Settles (extendIf p look k ps) (extendIf p' look k ps') := by
  intro ts hcut
  unfold extendIf at hcut ⊢
  dsimp only at hcut ⊢
  split at hcut
  · next hlook =>
    obtain ⟨hpCut, hpsCut⟩ := Bool.or_eq_false_iff.1 hcut
    rw [hp ts hpCut, if_pos hlook, if_pos hlook, hps _ hpsCut]
  · next hlook => rw [hp ts hcut, if_neg hlook, if_neg hlook]

/-- What wraps an operand settles if what is picked does, by induction on the times it wraps. -/
theorem wraps_settles {pick pick' : List Token → Option (Kind × List Parser)}
    (hpick : ∀ ts, Alike Settles (fun _ _ => True) ((pick ts).map fun x => (x.1, all x.2))
      ((pick' ts).map fun x => (x.1, all x.2))) (n : Nat) (built : List Tree) :
    Settles (wraps pick n built) (wraps pick' n built) := by
  induction n generalizing built with
  | zero =>
      intro ts hcut
      have hnone : pick ts = none := by simpa [wraps] using hcut
      have halike := hpick ts
      cases hpick' : pick' ts with
      | none => simp [wraps, hnone, hpick']
      | some found =>
          rw [hnone, hpick'] at halike
          exact halike.elim
  | succ n ih =>
      intro ts hcut
      have halike := hpick ts
      cases hfound : pick ts with
      | none =>
          cases hfound' : pick' ts with
          | none => simp only [wraps, hfound, hfound']
          | some found =>
              rw [hfound, hfound'] at halike
              exact halike.elim
      | some found =>
          cases hfound' : pick' ts with
          | none =>
              rw [hfound, hfound'] at halike
              exact halike.elim
          | some found' =>
              obtain ⟨k, ps⟩ := found
              obtain ⟨k', ps'⟩ := found'
              rw [hfound, hfound'] at halike
              obtain ⟨rfl, -, hps⟩ := halike
              simp only [wraps, hfound, hfound'] at hcut ⊢
              obtain ⟨hpsCut, hrestCut⟩ := Bool.or_eq_false_iff.1 hcut
              rw [hps ts hpsCut, ih _ _ hrestCut]

/-- A lead and what it belongs to settle if both do. -/
theorem headed_settles {α : Type} {lead lead' : Parser} {look : List Token → α}
    {pick pick' : α → Option (Kind × Parser)} {message : String} (hlead : Settles lead lead')
    (hpick : ∀ a, Alike Settles (fun _ _ => True) (pick a) (pick' a)) :
    Settles (headed lead look pick message) (headed lead' look pick' message) := by
  intro ts hcut
  have hleadCut : (lead ts).cut = false := by
    unfold headed at hcut
    dsimp only at hcut
    split at hcut
    · exact (cut_andThen hcut).1
    · split at hcut
      · exact hcut
      · exact (cut_andThen hcut).1
  unfold headed at hcut ⊢
  dsimp only at hcut ⊢
  rw [hlead ts hleadCut]
  have halike := hpick (look (lead ts).rest)
  cases hfound : pick (look (lead ts).rest) with
  | none =>
      cases hfound' : pick' (look (lead ts).rest) with
      | none => rfl
      | some found =>
          rw [hfound, hfound'] at halike
          exact halike.elim
  | some found =>
      cases hfound' : pick' (look (lead ts).rest) with
      | none =>
          rw [hfound, hfound'] at halike
          exact halike.elim
      | some found' =>
          obtain ⟨k, p⟩ := found
          obtain ⟨k', p'⟩ := found'
          rw [hfound, hfound'] at halike
          obtain ⟨rfl, -, hp⟩ := halike
          rw [hfound] at hcut
          dsimp only [under] at hcut ⊢
          rw [Settles.andThen rfl hp hcut]

/-- Doing the same where it is not cut is respected by the combinators. -/
theorem settles_congruence : Congruence Settles (fun _ _ => True) (fun _ _ => True) where
  done := Settles.refl _
  complain := fun _ => Settles.refl _
  flush := Settles.refl _
  bump := Settles.refl _
  seq := Settles.seq
  choose := fun _ h ts => h _ ts
  under := fun _ hp => under_settles hp
  retry := fun _ _ hp hq => orWhenStuck_settles hp hq
  recover := fun _ _ _ _ hp ts => turns_settles
    (fun us hcut => by
      dsimp only at hcut ⊢
      rw [orWhenStuck_settles hp (Settles.refl _) us hcut]) _ ts
  extend := fun _ _ hp hps => extendIf_settles hp hps
  loop := fun _ _ _ hitem hnext _ ts => turns_settles (turnOf_settles hitem hnext) _ ts
  wrap := by
    intro α l f g p p' _ hp hpick ts hcut
    obtain ⟨hpCut, hrestCut⟩ := Bool.or_eq_false_iff.1 hcut
    unfold wrapped
    dsimp only
    rw [hp ts hpCut, wraps_settles (fun us => hpick (l us)) _ _ _ hrestCut]
  head := fun _ _ _ _ hlead hpick => headed_settles hlead hpick

/-- What rules that settle need of each other. -/
theorem settles_ground {inner inner' : Rule → Parser} (h : ∀ r, Settles (inner r) (inner' r)) :
    Ground Settles (fun _ _ => True) (fun _ _ => True) inner inner' :=
  settles_congruence.ground h (stands_trivial inner) (stands_trivial inner')

/-- **Greater depth changes nothing** where the smaller one was enough. -/
theorem unfold_settles {n m : Nat} (h : n ≤ m) (r : Rule) : Settles (unfold n r) (unfold m r) := by
  induction n generalizing m r with
  | zero =>
      intro ts hcut
      simp [unfold, giveUp] at hcut
  | succ n ih =>
      obtain ⟨m, rfl⟩ : ∃ l, m = l + 1 := ⟨m - 1, by omega⟩
      exact phrase_congr settles_congruence (settles_ground fun r => ih (by omega) r) r

/-! ## At every depth -/

/-- What takes a stretch of its tokens wherever there is room does so at every depth. -/
theorem tiles_of_faithful {p : (Rule → Parser) → Parser}
    (hsettles : ∀ inner inner', (∀ r, Settles (inner r) (inner' r)) → Settles (p inner) (p inner'))
    (hfaithful : ∀ bound inner ts, Safe bound inner → Room bound rulesPerToken ts →
      (p inner ts).Faithful ts)
    (n : Nat) {ts : List Token} (hended : Ended ts) (hcut : (p (unfold n) ts).cut = false) :
    ∃ taken, (p (unfold n) ts).Tiles ts taken := by
  -- a depth that leaves room, and at which the step is the same
  obtain ⟨m, hm⟩ : ∃ m, max n (rulesPerToken * (ts.length + 1)) = m + 2 :=
    ⟨max n (rulesPerToken * (ts.length + 1)) - 2, by
      have : 2 ≤ rulesPerToken * (ts.length + 1) := by
        rw [Nat.mul_succ]
        exact Nat.le_trans (by decide) (Nat.le_add_left _ _)
      omega⟩
  have hroom : Room (m + 2) rulesPerToken ts :=
    ⟨hended, Or.inr (by rw [← Nat.mul_succ, ← hm]; exact Nat.le_max_right _ _)⟩
  have hsame := hsettles (unfold n) (unfold (m + 2))
    (fun r => unfold_settles (by rw [← hm]; exact Nat.le_max_left _ _) r) ts hcut
  rw [← hsame]
  exact (hfaithful (m + 2) _ ts (unfold_safe m) hroom).tiles

end CodeMend.Parse

import CodeMend.Proofs.Parser.Depth
import CodeMend.Proofs.Syntax.Bare

/-!
# Steps that do not get on

In some places the grammar asks whether a step has taken anything at all, trivia included.  For all
steps of which it asks this but one, the answer does not depend on trivia: such a step leaves
everything as it is or takes a significant token (`Solid`), whether it complains or not.

The exception are the parameters of a lambda.  A parameter that is missing is an empty node, and the
trivia before that node is taken.  What follows is therefore about steps whose parameters all have a
token (`Manned`).
-/

namespace CodeMend.Parse

open Tree

/-! ## Significant tokens -/

/-- Did the step take a significant token? -/
def Step.Solid (s : Step) : Prop := ∃ x ∈ tokensAll s.built, x.1.isTrivia = false

/-- A significant token taken first stays taken. -/
theorem Step.Solid.andThen {s : Step} (h : s.Solid) (p : Parser) : (s.andThen p).Solid := by
  obtain ⟨x, hx, hsignificant⟩ := h
  refine ⟨x, ?_, hsignificant⟩
  show x ∈ tokensAll (s.built ++ _)
  rw [tokensAll_append]
  exact List.mem_append_left _ hx

/-- A significant token may be taken by the second of two steps. -/
theorem Step.Solid.behind {s : Step} {p : Parser} (h : (p s.rest).Solid) : (s.andThen p).Solid := by
  obtain ⟨x, hx, hsignificant⟩ := h
  refine ⟨x, ?_, hsignificant⟩
  show x ∈ tokensAll (s.built ++ _)
  rw [tokensAll_append]
  exact List.mem_append_right _ hx

/-- A node has the tokens of the step below it. -/
theorem Step.Solid.under {p : Parser} {ts : List Token} (h : (p ts).Solid) (k : Kind) :
    (under k p ts).Solid := by
  obtain ⟨x, hx, hsignificant⟩ := h
  exact ⟨x, by simpa [Parse.under, tokensAll, tokens] using hx, hsignificant⟩

/-- Away from the end, `bump` takes the next significant token. -/
theorem bump_solid {ts : List Token} (hend : atEnd ts = false) : (bump ts).Solid := by
  obtain ⟨t, rest, hts, -, htake⟩ := take_eq (flush_ready ts) (by rw [flush_atEnd, hend])
  have hready := flush_ready ts
  rw [hts] at hready
  have htaken : (take (flush ts).rest).Solid := by
    rw [htake]
    exact ⟨(t.kind, t.text), by simp [leaf, tokensAll, tokens], hready t rfl⟩
  show (all [flush, take] ts).Solid
  rw [all_pair]
  exact htaken.behind

/-- What starts with a token takes a significant one. -/
theorem all_bump_solid {ts : List Token} (hend : atEnd ts = false) (ps : List Parser) :
    (all (bump :: ps) ts).Solid := (bump_solid hend).andThen _

/-- A node takes a significant token if what stands below it does behind the trivia. -/
theorem node_solid {k : Kind} {ps : List Parser} {ts : List Token}
    (h : (all ps (flush ts).rest).Solid) : (node k ps ts).Solid := by
  unfold node
  rw [all_pair]
  exact (h.under k).behind

/-- A node that starts with a token takes a significant one. -/
theorem node_bump_solid {ts : List Token} (hend : atEnd ts = false) (k : Kind) (ps : List Parser) :
    (node k (bump :: ps) ts).Solid :=
  node_solid (all_bump_solid (by rw [flush_atEnd, hend]) ps)

/-- Wrapping loses no token of the operand, by induction on the times it is wrapped. -/
theorem wraps_solid {pick : List Token → Option (Kind × List Parser)} {x : Kind × String} (n : Nat)
    {built : List Tree} (hx : x ∈ tokensAll built) (ts : List Token) :
    x ∈ tokensAll (wraps pick n built ts).built := by
  induction n generalizing built ts with
  | zero => exact hx
  | succ n ih =>
      cases hpick : pick ts with
      | none => simpa only [wraps, hpick, emit] using hx
      | some found =>
          simp only [wraps, hpick]
          refine ih ?_ _
          rw [tokensAll, tokens, tokensAll_append]
          exact List.mem_append_left _ (List.mem_append_left _ hx)

/-- An operand that takes a significant token does so with everything that wraps it. -/
theorem wrapped_solid {p : Parser} {pick : List Token → Option (Kind × List Parser)}
    {ts : List Token} (h : (p ts).Solid) : (wrapped p pick ts).Solid := by
  obtain ⟨x, hx, hsignificant⟩ := h
  exact ⟨x, wraps_solid _ hx _, hsignificant⟩

/-- A step that may be put into a node keeps its significant token. -/
theorem extendIf_solid {p : Parser} {look : Look} {k : Kind} {ps : List Parser} {ts : List Token}
    (h : (p ts).Solid) : (extendIf p look k ps ts).Solid := by
  obtain ⟨x, hx, hsignificant⟩ := h
  refine ⟨x, ?_, hsignificant⟩
  unfold extendIf
  dsimp only
  split
  · rw [tokensAll, tokens, tokensAll_append]
    exact List.mem_append_left _ (List.mem_append_left _ hx)
  · exact hx

/-- A parser that takes a significant token wherever the test holds. -/
def Takes (look : Look) (p : Parser) : Prop :=
  ∀ ts, look ts = true → (p ts).cut = false → (p ts).Solid

/-- A test that trivia do not change holds behind them too. -/
theorem Takes.flushed {look : Look} (hlook : Blind look) {p : Parser} (hp : Takes look p) :
    Takes look (all [flush, p]) := by
  intro ts hlooks hcut
  rw [all_pair] at hcut ⊢
  exact (hp _ ((hlook _ _ (view_flush ts)).trans hlooks) (cut_andThen hcut).2).behind

/-- A node over steps that take a significant token. -/
theorem Takes.enclosed {look : Look} (hlook : Blind look) {ps : List Parser}
    (hps : Takes look (all ps)) (k : Kind) : Takes look (node k ps) := by
  intro ts hlooks hcut
  unfold Parse.node at hcut
  rw [all_pair] at hcut
  exact node_solid (hps _ ((hlook _ _ (view_flush ts)).trans hlooks) (cut_andThen hcut).2)

/-- A node whose first step takes a significant token. -/
theorem Takes.node {look : Look} (hlook : Blind look) {p : Parser} (hp : Takes look p) (k : Kind)
    (ps : List Parser) : Takes look (node k (p :: ps)) := by
  refine Takes.enclosed hlook (fun ts hlooks hcut => ?_) k
  have hcut : ((p ts).andThen (all ps)).cut = false := hcut
  exact (hp ts hlooks (cut_andThen hcut).1).andThen (all ps)

/-! ## Types and expressions -/

/-- The phrases that take a significant token wherever they can start. -/
structure Striding (inner : Rule → Parser) : Prop where
  type : Takes startsType (inner .type)
  unary : Takes atExpression (inner .unary)
  binary : ∀ level, Takes atExpression (inner (.binary level))
  expression : Takes atExpression (inner .expression)

section Phrases

variable {self : Rule → Parser} {ts : List Token}

/-- Where a type can start, one is read. -/
theorem typePhrase_takes : Takes startsType (typePhrase self) := by
  intro ts htype _
  have hend := startsType_not_atEnd htype
  simp only [typePhrase, either, htype, if_true]
  split
  · exact node_bump_solid hend _ _
  · exact node_bump_solid hend _ _

/-- No expression starts at the end of the file. -/
theorem atExpression_not_atEnd (h : atExpression ts = true) : atEnd ts = false :=
  Bool.eq_false_iff.2 fun hend => by
    rw [atExpression_atEnd hend] at h
    cases h

/-- Where an expression starts without an operator in front, a primary expression does. -/
theorem primary_takes (hs : Striding self) (h : atExpression ts = true)
    (hsign : [Kind.bang, .minus, .plus, .tilde, .plusPlus, .minusMinus].contains (current ts) =
      false) :
    ∃ p, primary? self (current ts) = some p ∧ ((p ts).cut = false → (p ts).Solid) := by
  have hend := atExpression_not_atEnd h
  unfold primary?
  split
  · exact ⟨_, rfl, fun _ => node_bump_solid hend _ _⟩
  split
  · next hpredefined => exact ⟨_, rfl, hs.type ts (by simp [startsType, hpredefined])⟩
  split
  · exact ⟨_, rfl, fun _ => node_bump_solid hend _ _⟩
  · exact ⟨_, rfl, fun _ => node_bump_solid hend _ _⟩
  · exact ⟨_, rfl, fun _ => node_bump_solid hend _ _⟩
  · exact ⟨_, rfl, fun _ => node_bump_solid hend _ _⟩
  · exact ⟨_, rfl, fun _ => node_bump_solid hend _ _⟩
  · exact ⟨_, rfl, fun _ => node_bump_solid hend _ _⟩
  · exact ⟨_, rfl, fun _ => node_bump_solid hend _ _⟩
  · exact ⟨_, rfl, fun _ => node_bump_solid hend _ _⟩
  · simp_all [atExpression]

/-- An operand takes its operator or its first token. -/
theorem unaryPhrase_takes (hs : Striding self) : Takes atExpression (unaryPhrase self) := by
  intro ts h hcut
  unfold unaryPhrase at hcut ⊢
  split
  · exact node_bump_solid (atExpression_not_atEnd h) _ _
  · next hsign =>
    rw [if_neg hsign] at hcut
    have hblind : Blind (fun ts => atExpression ts &&
        !([Kind.bang, .minus, .plus, .tilde, .plusPlus, .minusMinus].contains (current ts))) :=
      Blind.atExpression.and (Blind.current.map fun k =>
        !([Kind.bang, .minus, .plus, .tilde, .plusPlus, .minusMinus].contains k))
    refine Takes.flushed hblind (fun us hus husCut => ?_) ts (by simpa [h] using hsign) hcut
    obtain ⟨hstart, hsign⟩ := Bool.and_eq_true_iff.1 hus
    obtain ⟨p, hp, hsolid⟩ := primary_takes hs hstart (by simpa using hsign)
    simp only [hp] at husCut ⊢
    exact wrapped_solid (hsolid (Bool.or_eq_false_iff.1 husCut).1)

/-- A binary expression takes what its first operand takes. -/
theorem binaryPhrase_takes (hs : Striding self) (level : Nat) :
    Takes atExpression (binaryPhrase self level) :=
  Takes.flushed Blind.atExpression fun ts h hcut =>
    wrapped_solid (hs.unary ts h (Bool.or_eq_false_iff.1 hcut).1)

/-- A step that may be put into a node is not cut if the whole is not. -/
theorem extendIf_cut {p : Parser} {look : Look} {k : Kind} {ps : List Parser}
    (hcut : (extendIf p look k ps ts).cut = false) : (p ts).cut = false := by
  unfold extendIf at hcut
  dsimp only at hcut
  split at hcut
  · exact (Bool.or_eq_false_iff.1 hcut).1
  · exact hcut

/-- A conditional takes what its condition takes. -/
theorem conditional_takes (hs : Striding self) : Takes atExpression (conditional self) :=
  Takes.flushed Blind.atExpression fun ts h hcut =>
    extendIf_solid (hs.binary 0 ts h (extendIf_cut hcut))

/-- A lambda takes the token that its parameters start with. -/
theorem lambda_solid (h : atLambda ts = true) : (lambda self ts).Solid := by
  have hend : atEnd (flush ts).rest = false := by rw [flush_atEnd, atLambda_not_atEnd h]
  refine node_solid (Step.Solid.andThen ?_ _)
  unfold either
  split
  · exact node_bump_solid hend _ _
  · exact node_bump_solid hend _ _

/-- Where an expression can start, one is read. -/
theorem expressionPhrase_takes (hs : Striding self) :
    Takes atExpression (expressionPhrase self) := by
  intro ts h hcut
  simp only [expressionPhrase, either, h, Bool.not_true, Bool.false_eq_true, if_false] at hcut ⊢
  split
  · next hlambda => exact lambda_solid hlambda
  · next hlambda =>
    rw [if_neg hlambda] at hcut
    exact Takes.flushed Blind.atExpression (fun us hus husCut =>
      extendIf_solid (conditional_takes hs us hus (extendIf_cut husCut))) ts h hcut

end Phrases

/-- Types and expressions take a significant token wherever they can start. -/
theorem unfold_striding (n : Nat) : Striding (unfold n) := by
  induction n with
  | zero =>
      have hnone : ∀ look r, Takes look (unfold 0 r) := by
        intro look r ts _ hcut
        simp [unfold, giveUp] at hcut
      exact ⟨hnone _ _, hnone _ _, fun _ => hnone _ _, hnone _ _⟩
  | succ n ih =>
      exact ⟨typePhrase_takes, unaryPhrase_takes ih, binaryPhrase_takes ih, expressionPhrase_takes ih⟩

/-! ## Nothing at all, or a significant token -/

/-- A parser that does nothing at all or takes a significant token. -/
def Poised (p : Parser) : Prop := ∀ ts, (p ts).cut = false → p ts = done ts ∨ (p ts).Solid

/-- What takes a significant token where its test holds does nothing elsewhere, so made optional
it is poised. -/
theorem Takes.given {look : Look} {p : Parser} (hp : Takes look p) : Poised (given look p) := by
  intro ts hcut
  unfold Parse.given either at hcut ⊢
  split
  · next hlook =>
    rw [if_pos hlook] at hcut
    exact Or.inr (hp ts hlook hcut)
  · exact Or.inl rfl

/-- A choice is poised if its first branch takes a token where it is picked and the other one is
poised. -/
theorem Poised.either {look : Look} {p q : Parser} (hp : Takes look p) (hq : Poised q) :
    Poised (either look p q) := by
  intro ts hcut
  unfold Parse.either at hcut ⊢
  split
  · next hlook =>
    rw [if_pos hlook] at hcut
    exact Or.inr (hp ts hlook hcut)
  · next hlook =>
    rw [if_neg hlook] at hcut
    exact hq ts hcut

/-- Poised steps in order are poised: if both do nothing, nothing is done. -/
theorem Poised.seq {p q : Parser} (hp : Poised p) (hq : Poised q) :
    Poised (fun ts => (p ts).andThen q) := by
  intro ts hcut
  obtain ⟨hpCut, hqCut⟩ := cut_andThen hcut
  rcases hp ts hpCut with hdone | hsolid
  · rcases hq (p ts).rest hqCut with hdone' | hsolid
    · left
      rw [hdone] at hdone'
      show (p ts).andThen q = done ts
      rw [hdone, Step.andThen, hdone']
      rfl
    · exact Or.inr hsolid.behind
  · exact Or.inr (hsolid.andThen q)

/-- A loop out of turns that was not cut had nothing to do. -/
theorem turns_zero {look : Look} {turn : List Token → Turn} {ts : List Token}
    (hcut : (turns look turn 0 ts).cut = false) : look ts = false := by
  cases hlook : look ts with
  | false => rfl
  | true => simp [turns, given, either, hlook, giveUp] at hcut

/-- A loop whose test fails does nothing. -/
theorem turns_of_not {look : Look} {turn : List Token → Turn} (n : Nat) {ts : List Token}
    (hlook : look ts = false) : turns look turn n ts = done ts := by
  cases n with
  | zero => simp [turns, given, either, hlook]
  | succ n => simp [turns, hlook]

/-- The first turn of a loop and the rest of it. -/
theorem turns_succ {look : Look} {turn : List Token → Turn} (n : Nat) {ts : List Token}
    (hlook : look ts = true) :
    turns look turn (n + 1) ts =
      if (turn ts).again then (turn ts).step.andThen (turns look turn n) else (turn ts).step := by
  simp [turns, hlook]

/-- A loop takes what its first turn takes. -/
theorem repeatWhile_takes {look : Look} {p : Parser} (hp : Takes look p) :
    Takes look (repeatWhile look p) := by
  intro ts hlook hcut
  unfold repeatWhile loop at hcut ⊢
  cases hn : ts.length with
  | zero =>
      rw [hn] at hcut
      rw [turns_zero hcut] at hlook
      cases hlook
  | succ n =>
      rw [hn, turns_succ n hlook, if_pos rfl] at hcut
      rw [turns_succ n hlook, if_pos rfl]
      exact (hp ts hlook (cut_andThen hcut).1).andThen _

/-- A loop does nothing or takes what its first turn takes. -/
theorem repeatWhile_poised {look : Look} {p : Parser} (hp : Takes look p) :
    Poised (repeatWhile look p) := by
  intro ts hcut
  cases hlook : look ts with
  | false => exact Or.inl (turns_of_not _ hlook)
  | true => exact Or.inr (repeatWhile_takes hp ts hlook hcut)

/-- Doing nothing takes no token. -/
theorem not_solid_done (ts : List Token) : ¬ (done ts).Solid := by
  rintro ⟨x, hx, -⟩
  cases hx

/-- One step or the next takes a significant token. -/
theorem Poised.before {look test : Look} {p : Parser} {ps : List Parser} (hp : Poised p)
    (hlook : Takes look p) (htest : Takes test (all ps)) :
    Takes (fun ts => look ts || test ts) (all (p :: ps)) := by
  intro ts h hcut
  have hcut : ((p ts).andThen (all ps)).cut = false := hcut
  show ((p ts).andThen (all ps)).Solid
  obtain ⟨hpCut, hpsCut⟩ := cut_andThen hcut
  rcases hp ts hpCut with hdone | hsolid
  · rcases Bool.or_eq_true_iff.1 h with hlooks | htests
    · exact absurd (hdone ▸ hlook ts hlooks hpCut) (not_solid_done ts)
    · rw [hdone] at hpsCut ⊢
      exact Step.Solid.behind (htest ts htests hpsCut)
  · exact hsolid.andThen _

/-- Where the expected token is ahead, it is taken. -/
theorem expect_takes {k : Kind} (hk : k ≠ .endOfFile) (ps : List Parser) :
    Takes (ahead k) (all (expect k :: ps)) := by
  intro ts h _
  refine Step.Solid.andThen ?_ _
  rw [expect, either, if_pos h]
  exact bump_solid (not_atEnd_of_ahead hk h)

section Phrases

variable {self : Rule → Parser} {ts : List Token}

/-- Variables take the first token of their type. -/
theorem variableDeclaration_takes (hs : Striding self) :
    Takes startsType (variableDeclaration self) := hs.type.node .startsType _ _

/-- A local declaration starts with a type. -/
theorem startsType_of_atLocalDeclaration (h : atLocalDeclaration ts = true) :
    startsType ts = true := by
  unfold atLocalDeclaration at h
  split at h
  · next hpast => exact startsType_of_pastType (by rw [hpast]; rfl)
  · cases h

/-- A statement does nothing at all or takes a significant token, whatever the next token is. -/
theorem statementPhrase_poised (hs : Striding self) : Poised (statementPhrase self) := by
  intro ts hcut
  unfold statementPhrase at hcut ⊢
  have hbump : ∀ {k l : Kind} (ps : List Parser), current ts = l → l ≠ .endOfFile →
      (node k (bump :: ps) ts).Solid := fun ps hcurrent hl =>
    node_bump_solid (not_atEnd_of_current hl hcurrent) _ ps
  generalize hp : statementFor self (current ts) = p at hcut ⊢
  unfold statementFor at hp
  split at hp <;> subst hp
  · next h => exact Or.inr (hbump _ h (by decide))
  · next h => exact Or.inr (hbump _ h (by decide))
  · next h => exact Or.inr (hbump _ h (by decide))
  · next h => exact Or.inr (hbump _ h (by decide))
  · next h => exact Or.inr (hbump _ h (by decide))
  · next h => exact Or.inr (hbump _ h (by decide))
  · next h => exact Or.inr (hbump _ h (by decide))
  · next h => exact Or.inr (hbump _ h (by decide))
  · next h => exact Or.inr (hbump _ h (by decide))
  · next h => exact Or.inr (hbump _ h (by decide))
  · next h => exact Or.inr (hbump _ h (by decide))
  · next h => exact Or.inr (hbump _ h (by decide))
  · next h => exact Or.inr (hbump _ h (by decide))
  · next h =>
    refine Or.inr ?_
    unfold either
    split
    · exact hbump _ h (by decide)
    · exact hbump _ h (by decide)
  · next h => exact Or.inr (hbump _ h (by decide))
  · refine Poised.either (fun us hlocal husCut => ?_)
      (Takes.given (hs.expression.node .atExpression _ _)) ts hcut
    exact (variableDeclaration_takes hs).node .startsType _ _ us
      (startsType_of_atLocalDeclaration hlocal) husCut

/-- Attributes take their bracket. -/
theorem lBracket_takes : Takes (ahead .lBracket) (attributeList self) := fun _ h _ =>
  node_bump_solid (not_atEnd_of_ahead (by decide) h) _ _

/-- Attributes are there or they are not. -/
theorem attributeLists_poised : Poised (attributeLists self) := repeatWhile_poised lBracket_takes

/-- Modifiers are there or they are not. -/
theorem modifiers_poised : Poised modifiers :=
  repeatWhile_poised fun _ h _ => bump_solid (not_atEnd_of (P := Kind.isModifier) rfl h)

/-- In front of a declaration nothing is taken, or a bracket or a modifier. -/
theorem lead_poised : Poised (all [attributeLists self, modifiers]) := by
  rw [all_pair]
  exact attributeLists_poised.seq modifiers_poised

/-- A member of an enumeration takes a bracket or its name. -/
theorem enumMember_poised :
    Poised (given (fun ts => ahead .ident ts || ahead .lBracket ts) (enumMember self)) := by
  refine Takes.given fun ts h hcut => ?_
  refine Takes.enclosed ((Blind.ahead .lBracket).or (.ahead .ident)) (attributeLists_poised.before
    (repeatWhile_takes lBracket_takes) (expect_takes (by decide) _)) _ ts ?_ hcut
  simpa only [Bool.or_comm] using h

/-- A parameter takes a bracket, a modifier or the start of its type, or is none. -/
theorem parameter_poised (hs : Striding self) : Poised (parameter self) := by
  refine Takes.given fun ts h hcut => ?_
  have hmodifier : Takes atParameterModifier bump := fun us hus _ => bump_solid (not_atEnd_of
    (P := fun k => [Kind.refKw, .outKw, .inKw, .paramsKw, .thisKw].contains k) rfl hus)
  have htype (ps : List Parser) : Takes atType (all (self .type :: ps)) := by
    intro us hus husCut
    have husCut : ((self .type us).andThen (all ps)).cut = false := husCut
    exact (hs.type us (startsType_of_pastType hus) (cut_andThen husCut).1).andThen (all ps)
  refine Takes.enclosed ((Blind.ahead .lBracket).or (Blind.atParameterModifier.or .atType))
    (attributeLists_poised.before (repeatWhile_takes lBracket_takes)
      ((repeatWhile_poised hmodifier).before (repeatWhile_takes hmodifier) (htype _))) _ ts ?_ hcut
  simpa only [Bool.or_assoc] using h

/-- An accessor takes a bracket, a modifier or its keyword, or is none. -/
theorem accessor_poised : Poised (accessor self) := by
  refine Takes.given fun ts h hcut => ?_
  have hmodifier : Takes (fun ts => (current ts).isModifier) bump :=
    fun us hus _ => bump_solid (not_atEnd_of (P := Kind.isModifier) rfl hus)
  refine Takes.enclosed ((Blind.ahead .lBracket).or ((Blind.current.map Kind.isModifier).or
      (.ahead .ident))) (attributeLists_poised.before (repeatWhile_takes lBracket_takes)
      (modifiers_poised.before (repeatWhile_takes hmodifier) (expect_takes (by decide) _)))
    _ ts ?_ hcut
  simp only [Bool.or_eq_true] at h ⊢
  exact h.elim (·.elim (Or.inr ∘ Or.inr) Or.inl) (Or.inr ∘ Or.inl)

/-- A declaration that is told by what comes next takes a significant token. -/
theorem declaration_solid (hs : Striding self) {enclosing : Option String} {k : Kind} {p : Parser}
    (h : declaration? self enclosing ts = some (k, p)) (hcut : (p ts).cut = false) :
    (p ts).Solid := by
  have htype : (pastType true ts).isSome = true → ∀ ps : List Parser,
      (all (self .type :: ps) ts).cut = false → (all (self .type :: ps) ts).Solid := by
    intro hpast ps hcut
    have hcut : ((self .type ts).andThen (all ps)).cut = false := hcut
    exact (hs.type ts (startsType_of_pastType hpast) (cut_andThen hcut).1).andThen (all ps)
  cases declares_of_declaration? h with
  | type keyword kind => exact all_bump_solid (not_atEnd_of_mem (by decide) keyword) _
  | enum keyword => exact all_bump_solid (not_atEnd_of_current (by decide) keyword) _
  | constructor name => exact all_bump_solid (not_atEnd_of_current (by decide) name) _
  | method named => exact htype (Option.isSome_of_eq_some named) _ hcut
  | property named => exact htype (Option.isSome_of_eq_some named) _ hcut
  | field named =>
      have hcut : ((variableDeclaration self ts).andThen _).cut = false := hcut
      exact (variableDeclaration_takes hs ts (startsType_of_pastType (Option.isSome_of_eq_some named))
        (cut_andThen hcut).1).andThen _
  | nameless typed =>
      have hstart := startsType_of_pastType (Option.isSome_of_eq_some typed)
      -- a type without a name: what follows it is skipped, and the type is not at the end of that
      have hskips : Takes (fun ts => !atEnd ts && !ahead .semicolon ts && !ahead .rBrace ts
          && !ahead .lBrace ts) bump := fun us hus _ => bump_solid (by
        simp only [Bool.and_eq_true, Bool.not_eq_true'] at hus
        exact hus.1.1.1)
      have hcut : ((complain "Expected a member name" ts).andThen _).cut = false := hcut
      have hcut := (cut_andThen hcut).2
      refine Step.Solid.behind (Step.Solid.andThen (repeatWhile_takes hskips ts ?_
        (cut_andThen hcut).1) _)
      have hne : ∀ l : Kind, (l.isPredefinedType || l == .ident) = false → current ts ≠ l := by
        rintro l hl rfl
        rw [startsType, hl] at hstart
        cases hstart
      simp [atEnd, ahead, hne .endOfFile rfl, hne .semicolon rfl, hne .rBrace rfl, hne .lBrace rfl]

/-- A declaration takes a significant token, or none starts here and nothing is taken. -/
theorem declared_poised (hs : Striding self) (enclosing : Option String) :
    Poised (declared self enclosing) := by
  intro ts hcut
  unfold declared at hcut ⊢
  dsimp only at hcut ⊢
  cases hfound : declaration? self enclosing (all [attributeLists self, modifiers] ts).rest with
  | some found =>
      obtain ⟨k, p⟩ := found
      simp only [hfound] at hcut ⊢
      have hpCut := (cut_andThen (s := all [attributeLists self, modifiers] ts) (p := p) hcut).2
      exact Or.inr (Step.Solid.under (p := fun _ => Step.andThen _ p)
        (Step.Solid.behind (declaration_solid hs hfound hpCut)) k)
  | none =>
      simp only [hfound] at hcut ⊢
      by_cases hstuck : stuck ts (all [attributeLists self, modifiers] ts) = true
      · rw [if_pos hstuck] at hcut ⊢
        exact lead_poised ts hcut
      · rw [if_neg hstuck] at hcut ⊢
        have hleadCut := (cut_andThen (s := all [attributeLists self, modifiers] ts)
          (p := complain "Expected a member declaration") hcut).1
        rcases lead_poised ts hleadCut with hdone | hsolid
        · exact absurd (by rw [hdone]; exact beq_self_eq_true _) hstuck
        · exact Or.inr (Step.Solid.under (p := fun _ => Step.andThen _ (complain _))
            (hsolid.andThen _) _)

end Phrases

/-! ## Where a step stands -/

/-- A parameter, if the node is one, has a significant token. -/
def Manned (k : Kind) (cs : List Tree) : Prop :=
  k = .parameter → ∃ x ∈ tokensAll cs, x.1.isTrivia = false

instance (k : Kind) (cs : List Tree) : Decidable (Manned k cs) :=
  inferInstanceAs (Decidable (_ → _))

/-- A step that takes nothing or takes a significant token, provided that its parameters have one. -/
def Steady (p : Parser) : Prop :=
  ∀ ts, Ended ts → (p ts).cut = false → EveryNodeAmong Manned (p ts).built →
    (p ts).rest = ts ∨ view (p ts).rest ≠ view ts

/-- A step that builds nothing but trivia and does not complain unless it takes a significant
token. -/
def Drifting (p : Parser) : Prop :=
  ∀ ts, Ended ts → (p ts).cut = false → view (p ts).rest = view ts →
    bareAll (p ts).built = [] ∧ (p ts).errors = []

/-- Does the step stand in that way where it does not get on? -/
def Holds : Standing → Parser → Prop
  | .steady => Steady
  | .drifting => Drifting

/-- As many tokens can be seen as are significant. -/
theorem length_view (ts : List Token) : (view ts).length = (significant ts).length := by
  have h := congrArg List.length (significant_eq_view ts)
  simpa using h.symm

/-- A stretch with a significant token changes what can be seen. -/
theorem Step.Tiles.view_ne {s : Step} {ts taken : List Token} (h : s.Tiles ts taken)
    (hsolid : s.Solid) : view s.rest ≠ view ts := by
  intro hview
  obtain ⟨x, hx, hsignificant⟩ := hsolid
  rw [h.stored] at hx
  obtain ⟨t, ht, rfl⟩ := List.mem_map.1 hx
  have hmem : t ∈ significant taken :=
    List.mem_filter.2 ⟨ht, by simpa [Token.stored] using hsignificant⟩
  have hpos := List.length_pos_of_mem hmem
  have hlength := congrArg List.length hview
  rw [length_view, length_view, h.split, significant_append, List.length_append] at hlength
  omega

section Depth

variable {p : (Rule → Parser) → Parser}

/-- What takes nothing or a significant token is steady. -/
theorem steady_of_solid
    (hsettles : ∀ inner inner', (∀ r, Settles (inner r) (inner' r)) → Settles (p inner) (p inner'))
    (hfaithful : ∀ bound inner ts, Safe bound inner → Room bound rulesPerToken ts →
      (p inner ts).Faithful ts)
    (n : Nat) (hsolid : ∀ ts, (p (unfold n) ts).cut = false →
      EveryNodeAmong Manned (p (unfold n) ts).built →
      (p (unfold n) ts).rest = ts ∨ (p (unfold n) ts).Solid) :
    Steady (p (unfold n)) := by
  intro ts hended hcut hmanned
  refine (hsolid ts hcut hmanned).imp_right fun hsolid => ?_
  obtain ⟨taken, htiles⟩ := tiles_of_faithful hsettles hfaithful n hended hcut
  exact htiles.view_ne hsolid

/-- A poised rule that settles and keeps order is steady at every depth. -/
theorem Poised.steady
    (hsettles : ∀ inner inner', (∀ r, Settles (inner r) (inner' r)) → Settles (p inner) (p inner'))
    (hkeeps : ∀ bound inner, Safe bound inner → Keeps bound rulesPerToken (p inner)) (n : Nat)
    (hpoised : Poised (p (unfold n))) : Steady (p (unfold n)) := by
  refine steady_of_solid hsettles (fun bound inner ts hs hroom => (hkeeps bound inner hs ts
    hroom).toFaithful) n fun ts hcut _ => ?_
  exact (hpoised ts hcut).imp_left fun hdone => by rw [hdone]; rfl

/-- What does nothing at all or takes a significant token, perhaps behind trivia that it puts in
place. -/
theorem drifting_of_poised
    (hsettles : ∀ inner inner', (∀ r, Settles (inner r) (inner' r)) → Settles (p inner) (p inner'))
    (hfaithful : ∀ bound inner ts, Safe bound inner → Room bound rulesPerToken ts →
      (p inner ts).Faithful ts)
    (n : Nat) (hpoised : ∀ ts, (p (unfold n) ts).cut = false →
      (bareAll (p (unfold n) ts).built = [] ∧ (p (unfold n) ts).errors = []) ∨
        (p (unfold n) ts).Solid) :
    Drifting (p (unfold n)) := by
  intro ts hended hcut hview
  refine (hpoised ts hcut).resolve_right fun hsolid => ?_
  obtain ⟨taken, htiles⟩ := tiles_of_faithful hsettles hfaithful n hended hcut
  exact htiles.view_ne hsolid hview

/-- A poised rule stays so behind trivia, which it may put in place: it is drifting. -/
theorem Poised.drifting
    (hsettles : ∀ inner inner', (∀ r, Settles (inner r) (inner' r)) → Settles (p inner) (p inner'))
    (hkeeps : ∀ bound inner, Safe bound inner → Keeps bound rulesPerToken (p inner)) (n : Nat)
    (hpoised : Poised (p (unfold n))) : Drifting (p (unfold n)) := by
  refine drifting_of_poised hsettles (fun bound inner ts hs hroom => (hkeeps bound inner hs ts
    hroom).toFaithful) n fun ts hcut => ?_
  exact (hpoised ts hcut).imp_left fun hdone => by rw [hdone]; exact ⟨rfl, rfl⟩

end Depth

/-- Leaves of trivia leave nothing when trivia are left out. -/
theorem bareAll_leaves {ts : List Token} (h : ∀ t ∈ ts, t.kind.isTrivia = true) :
    bareAll (ts.map leaf) = [] := by
  refine bareAll_eq_nil fun t ht => ?_
  obtain ⟨token, htoken, rfl⟩ := List.mem_map.1 ht
  exact h token htoken

/-- What is put in place as trivia leaves nothing when trivia are left out. -/
theorem bareAll_flush (ts : List Token) : bareAll (flush ts).built = [] :=
  bareAll_leaves fun t ht => by simpa using List.mem_takeWhile_imp ht

/-- A poised step at every depth. -/
theorem unfold_poised {r : Rule} (h : ∀ inner, Striding inner → Poised (phrase inner r)) (n : Nat) :
    Poised (unfold n r) := by
  cases n with
  | zero => exact fun _ hcut => by simp [unfold, giveUp] at hcut
  | succ n => exact h _ (unfold_striding n)

/-- A member does not get on only where none starts. Then it has put trivia in place at most and
does not complain, so the loop around it does. -/
theorem member_drifting (n : Nat) (enclosing : Option String) :
    Drifting (unfold n (.member enclosing)) := by
  refine drifting_of_poised (p := fun inner => inner (.member enclosing)) (fun _ _ h => h _)
    (fun bound inner ts hs hroom => ((hs.member enclosing) ts (hroom.mono (by decide))).1) n ?_
  intro ts hcut
  cases n with
  | zero => simp [unfold, giveUp] at hcut
  | succ n =>
      have hdeclaration : ∀ enclosing, (declaration (unfold n) enclosing ts).cut = false →
          (bareAll (declaration (unfold n) enclosing ts).built = [] ∧
            (declaration (unfold n) enclosing ts).errors = []) ∨
          (declaration (unfold n) enclosing ts).Solid := by
        intro enclosing hcut
        rw [declaration, all_pair] at hcut ⊢
        rcases declared_poised (unfold_striding n) enclosing _ (cut_andThen hcut).2 with hdone | hsolid
        · left
          dsimp only [Step.andThen]
          rw [hdone]
          exact ⟨by simp [done, bareAll_flush], rfl⟩
        · exact Or.inr hsolid.behind
      change (memberFor (unfold n) enclosing (current ts) ts).cut = false at hcut
      show (bareAll (memberFor (unfold n) enclosing (current ts) ts).built = [] ∧
          (memberFor (unfold n) enclosing (current ts) ts).errors = []) ∨
        (memberFor (unfold n) enclosing (current ts) ts).Solid
      generalize hp : memberFor (unfold n) enclosing (current ts) = p at hcut ⊢
      unfold memberFor at hp
      split at hp <;> subst hp
      · next h =>
        cases enclosing with
        | none => exact Or.inr (node_bump_solid (not_atEnd_of_current (by decide) h) _ _)
        | some name => exact hdeclaration _ hcut
      · next h => exact Or.inr (node_bump_solid (not_atEnd_of_current (by decide) h) _ _)
      · exact Or.inl ⟨rfl, rfl⟩
      · exact Or.inl ⟨rfl, rfl⟩
      · exact Or.inl ⟨rfl, rfl⟩
      · exact hdeclaration _ hcut

/-- A parameter of a lambda is a node behind trivia. -/
theorem lambdaParameter_solid {inner : Rule → Parser} {ts : List Token}
    (h : EveryNodeAmong Manned (lambdaParameter inner ts).built) :
    (lambdaParameter inner ts).Solid := by
  unfold lambdaParameter node at h ⊢
  rw [all_pair] at h ⊢
  obtain ⟨⟨hmanned, -⟩, -⟩ := (everyNodeAmong_append.1 h).2
  exact Step.Solid.behind (Step.Solid.under (p := all _) (hmanned rfl) _)

/-- **Where the steps stand of which the grammar asks whether they were stuck.** -/
theorem unfold_stands (n : Nat) : Stands Holds (unfold n) := by
  have C := settles_congruence
  have hstatement : Poised (unfold n .statement) := unfold_poised (fun _ => statementPhrase_poised) n
  exact {
    statement := hstatement.steady (p := fun inner => inner .statement) (fun _ _ h => h _)
      (fun _ _ hs => hs.statements) n
    expression := by
      refine steady_of_solid (p := fun inner => inner .expression) (fun _ _ h => h _)
        (fun _ _ ts hs hroom => (hs.expressions ts hroom).toFaithful) n fun ts hcut _ => ?_
      cases hstart : atExpression ts with
      | true => exact Or.inr ((unfold_striding n).expression ts hstart hcut)
      | false =>
          left
          cases n with
          | zero => rfl
          | succ n => simp [unfold, phrase, expressionPhrase, either, hstart, complain]
    lambdaParameter := steady_of_solid
      (fun _ _ h => lambdaParameter_congr C (settles_ground h).toInner)
      (fun _ _ ts hs hroom => (lambdaParameter_commits hs ts hroom).toFaithful) n
      fun ts _ hmanned => Or.inr (lambdaParameter_solid hmanned)
    enumMember := enumMember_poised.steady
      (p := fun inner => given (fun ts => ahead .ident ts || ahead .lBracket ts) (enumMember inner))
      (fun _ _ h => given_congr C ((Blind.ahead .ident).or (.ahead .lBracket))
        (settles_ground h).enumMember)
      (fun _ _ hs => (enumMember_commits hs).keeps.given _) n
    parameter := (parameter_poised (unfold_striding n)).steady
      (fun _ _ h => parameter_congr C (settles_ground h).toOuter) (fun _ _ hs => parameter_keeps hs) n
    lead := lead_poised.steady (p := fun inner => all [attributeLists inner, modifiers])
      (fun _ _ h => lead_congr C (settles_ground h).toOuter)
      (fun _ _ hs => (attributeLists_keeps hs).cons (modifiers_keeps.cons .nil)) n
    statements := hstatement.drifting (p := fun inner => inner .statement) (fun _ _ h => h _)
      (fun _ _ hs => hs.statements) n
    members := member_drifting n
    accessors := accessor_poised.drifting (fun _ _ h => accessor_congr C (settles_ground h).toOuter)
      (fun _ _ hs => accessor_keeps hs) n }

end CodeMend.Parse

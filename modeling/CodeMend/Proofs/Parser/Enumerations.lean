import CodeMend.Proofs.Parser.Shape

/-!
# What stands in an enumeration

In a text without complaints the members of an enumeration stand behind its opening brace, where no
other node stands (`parse_enumerated`).  What stands before the brace is not the work of one rule: the
attributes and the modifiers are read before it is known that an enumeration follows.  So this is
shown for attributes, modifiers and the rest together (`declared_enumerated`), and all other
declarations are read as nodes about which there is nothing to say.
-/

namespace CodeMend

namespace Parse

open Tree

/-- No opening brace and no member of an enumeration stands in the row. -/
def Unlisted (ts : List Tree) : Prop :=
  ∀ t ∈ ts, t.isTokenOf .lBrace = false ∧ t.isNodeOf .enumMemberDeclaration = false

/-- The nodes of the row are members of an enumeration. -/
def Listed (ts : List Tree) : Prop := ∀ t ∈ ts, t.isNode = true → t.kind = .enumMemberDeclaration

/-- A row with members between braces. -/
def Parted (ts : List Tree) : Prop :=
  ∃ before opening body closing rest,
    ts = before ++ .token .lBrace opening :: (body ++ .token .rBrace closing :: rest) ∧
      Unlisted before ∧ Listed body ∧ ∀ t ∈ rest, t.isToken = true

/-- The members of an enumeration stand between its braces, with nothing but tokens. -/
def Enumerated (k : Kind) (cs : List Tree) : Prop := k = .enumDeclaration → Parted cs

/-- Two rows before the brace make one. -/
theorem Unlisted.append {xs ys : List Tree} (hxs : Unlisted xs) (hys : Unlisted ys) :
    Unlisted (xs ++ ys) := by
  intro t ht
  rcases List.mem_append.1 ht with ht | ht
  · exact hxs t ht
  · exact hys t ht

/-- Two rows of members make one. -/
theorem Listed.append {xs ys : List Tree} (hxs : Listed xs) (hys : Listed ys) : Listed (xs ++ ys) := by
  intro t ht
  rcases List.mem_append.1 ht with ht | ht
  · exact hxs t ht
  · exact hys t ht

/-- Tokens are no nodes of another kind. -/
theorem listed_of_tokens {ts : List Tree} (h : ∀ t ∈ ts, t.isNode = false) : Listed ts := by
  intro t ht hnode
  rw [h t ht] at hnode
  cases hnode

/-- What is put in place are tokens. -/
theorem flush_tokens (ts : List Token) : ∀ t ∈ (flush ts).built, t.isNode = false := by
  intro t ht
  obtain ⟨token, -, rfl⟩ := List.mem_map.1 ht
  rfl

/-- What `bump` builds are tokens. -/
theorem bump_tokens (ts : List Token) : ∀ t ∈ (bump ts).built, t.isNode = false := by
  cases hend : atEnd ts with
  | true =>
      rw [bump_eq_flush hend]
      exact flush_tokens ts
  | false =>
      obtain ⟨text, hbuilt⟩ := bump_built hend
      rw [hbuilt]
      intro t ht
      rcases List.mem_append.1 ht with ht | ht
      · exact flush_tokens ts t ht
      · obtain rfl := List.mem_singleton.1 ht
        rfl

/-- Tokens other than opening braces. -/
theorem unlisted_of_tokens {ts : List Tree} (htokens : ∀ t ∈ ts, t.isNode = false)
    (hunopened : Unopened ts) : Unlisted ts := by
  intro t ht
  refine ⟨hunopened t ht, ?_⟩
  cases t with
  | token k text => rfl
  | node k cs => cases htokens _ ht

/-- Trivia may stand before the brace. -/
theorem flush_unlisted (ts : List Token) : Unlisted (flush ts).built :=
  unlisted_of_tokens (flush_tokens ts) (flush_unopened ts)

/-- A token that is no opening brace may stand before the brace. -/
theorem bump_unlisted {ts : List Token} (h : ahead .lBrace ts = false) : Unlisted (bump ts).built :=
  unlisted_of_tokens (bump_tokens ts) (bump_unopened h)

/-- What a node of another kind leaves in the row. -/
theorem node_unlisted {k : Kind} (hk : k ≠ .enumMemberDeclaration) (ps : List Parser)
    (ts : List Token) : Unlisted (node k ps ts).built := by
  unfold node
  rw [all_pair]
  refine (flush_unlisted ts).append fun t ht => ?_
  obtain rfl := List.mem_singleton.1 ht
  exact ⟨rfl, by simpa [isNodeOf] using fun h => hk h.symm⟩

/-- A loop of such turns. -/
theorem repeatWhile_unlisted {look : Look} {p : Parser}
    (hp : ∀ ts, look ts = true → Unlisted (p ts).built) {ts : List Token}
    (herr : (repeatWhile look p ts).errors = []) : Unlisted (repeatWhile look p ts).built :=
  turns_built silent_parts (Q := Unlisted) (fun _ ht => by simp at ht)
    (fun _ _ hxs hys => hxs.append hys) (fun us hlook _ => hp us hlook) _ ts herr

/-- Attributes and modifiers may stand before the brace. -/
theorem lead_unlisted (inner : Rule → Parser) {ts : List Token}
    (herr : (all [attributeLists inner, modifiers] ts).errors = []) :
    Unlisted (all [attributeLists inner, modifiers] ts).built := by
  rw [all_pair] at herr ⊢
  obtain ⟨hlists, hmodifiers⟩ := Step.andThen_errors.1 herr
  refine (repeatWhile_unlisted (fun us _ => node_unlisted (k := .attributeList) nofun _ us) hlists).append
    (repeatWhile_unlisted (fun us hmodifier => bump_unlisted ?_) hmodifiers)
  refine Bool.eq_false_iff.2 fun hbrace => ?_
  have hcurrent : current us = .lBrace := by simpa [ahead] using hbrace
  rw [hcurrent] at hmodifier
  cases hmodifier

/-- So may a token of another kind that is there. -/
theorem expect_unlisted {k : Kind} (hk : k ≠ .lBrace) {ts : List Token}
    (herr : (expect k ts).errors = []) : Unlisted (expect k ts).built := by
  obtain ⟨hahead, hbump⟩ := expect_eq_bump herr
  rw [hbump]
  refine bump_unlisted (Bool.eq_false_iff.2 fun hbrace => hk ?_)
  rw [← beq_iff_eq.1 (show (current ts == k) = true from hahead)]
  exact beq_iff_eq.1 (show (current ts == .lBrace) = true from hbrace)

/-- The members, with the commas between them. -/
theorem enumMembers_listed (inner : Rule → Parser) {ts : List Token}
    (herr : (enumMembers inner ts).errors = []) : Listed (enumMembers inner ts).built := by
  refine turns_built silent_parts (Q := Listed) (fun _ ht => by simp at ht)
    (fun _ _ hxs hys => hxs.append hys) (fun us _ hturn => ?_) _ ts herr
  have hitem (vs : List Token) :
      Listed (given (fun ts => ahead .ident ts || ahead .lBracket ts) (enumMember inner) vs).built := by
    unfold given either
    split
    · unfold enumMember node
      rw [all_pair]
      refine (listed_of_tokens (flush_tokens vs)).append fun t ht _ => ?_
      obtain rfl := List.mem_singleton.1 ht
      rfl
    · exact fun t ht => by simp [done] at ht
  unfold commaTurn at hturn ⊢
  dsimp only at hturn ⊢
  split at hturn
  · next hcomma =>
    rw [if_pos hcomma]
    exact (hitem us).append (listed_of_tokens (bump_tokens _))
  · next hcomma =>
    rw [if_neg hcomma]
    refine (hitem us).append ?_
    have hmissing := (Step.andThen_errors.1 hturn).2
    split at hmissing
    · exact absurd hmissing (skip_errors _ _)
    · next hmoved =>
      rw [if_neg hmoved]
      dsimp only at hmissing ⊢
      split at hmissing
      · next hclosed =>
        rw [if_pos hclosed]
        exact fun t ht => by simp [goOn, done] at ht
      · simp [stop, complain] at hmissing

/-- What may stand before the brace does not change where the members are. -/
theorem Unlisted.parted {xs ys : List Tree} (hxs : Unlisted xs) (hys : Parted ys) :
    Parted (xs ++ ys) := by
  obtain ⟨before, opening, body, closing, rest, rfl, hbefore, hbody, hrest⟩ := hys
  exact ⟨xs ++ before, opening, body, closing, rest, by rw [List.append_assoc], hxs.append hbefore,
    hbody, hrest⟩

/-- The body of an enumeration. -/
theorem enumBody_parted (inner : Rule → Parser) {ts : List Token}
    (herr : (all [expect .lBrace, enumMembers inner, expect .rBrace, eat .semicolon] ts).errors = []) :
    Parted (all [expect .lBrace, enumMembers inner, expect .rBrace, eat .semicolon] ts).built := by
  obtain ⟨hopen, hrest⟩ := Step.andThen_errors.1 herr
  obtain ⟨hmembers, hrest⟩ := Step.andThen_errors.1 hrest
  obtain ⟨hclose, -⟩ := Step.andThen_errors.1 hrest
  obtain ⟨opening, hopening⟩ := expect_built (by decide) hopen
  obtain ⟨closing, hclosing⟩ := expect_built (by decide) hclose
  have hend {us : List Token} : ∀ t ∈ (all [eat .semicolon] us).built, t.isToken = true := by
    rw [all_single]
    unfold eat given either
    split
    · intro t ht
      simpa [isNode] using bump_tokens us t ht
    · exact fun t ht => by simp [done] at ht
  let members := enumMembers inner (expect .lBrace ts).rest
  let last := expect .rBrace members.rest
  refine ⟨(flush ts).built, opening, members.built ++ (flush members.rest).built, closing,
    (all [eat .semicolon] last.rest).built, ?_, flush_unlisted ts,
    (enumMembers_listed inner hmembers).append (listed_of_tokens (flush_tokens _)), hend⟩
  show (expect .lBrace ts).built ++ (members.built ++ (last.built ++ _)) = _
  rw [hopening, show last.built = _ from hclosing]
  simp only [List.append_assoc, List.singleton_append]
  rfl

/-- What follows the attributes and modifiers of an enumeration. -/
theorem enumDeclaration_parted (inner : Rule → Parser) {ts : List Token}
    (hcurrent : current ts = .enumKw) (herr : (enumDeclaration inner ts).errors = []) :
    Parted (enumDeclaration inner ts).built := by
  obtain ⟨-, hrest⟩ := Step.andThen_errors.1 herr
  obtain ⟨hname, hrest⟩ := Step.andThen_errors.1 hrest
  obtain ⟨-, hbody⟩ := Step.andThen_errors.1 hrest
  have hkeyword : Unlisted (bump ts).built := bump_unlisted (by simp [ahead, hcurrent])
  have hbase (us : List Token) : Unlisted (given (ahead .colon) (baseList inner) us).built := by
    unfold given either
    split
    · exact node_unlisted (k := .baseList) (by decide) _ us
    · exact fun t ht => by simp [done] at ht
  exact hkeyword.parted ((expect_unlisted (k := .ident) (by decide) hname).parted
    ((hbase _).parted (enumBody_parted inner hbody)))

/-- Nothing is asked of other nodes. -/
theorem enumerated_of_other {k : Kind} (hk : k ≠ .enumDeclaration) (cs : List Tree) :
    Enumerated k cs := fun h => absurd h hk

/-- Only the keyword of an enumeration leads to one. -/
theorem declarationFor_enum {inner : Rule → Parser} {enclosing : Option String}
    {x : (Kind × Kind) × String × Option (List Kind)} {p : Parser}
    (h : declarationFor inner enclosing x = some (.enumDeclaration, p)) :
    x.1.1 = .enumKw ∧ p = enumDeclaration inner := by
  cases declares_of_declarationFor h with
  | type keyword kind => exact absurd kind (by decide)
  | enum keyword => exact ⟨keyword, rfl⟩

variable {self : Rule → Parser}

/-- What members of types ask of the rules. -/
theorem enumerated_outer (hs : ∀ r, Builds Silent Enumerated (self r)) :
    Outer (Alone (Builds Silent Enumerated)) (Tops Silent Enumerated) (fun _ _ => True) self self :=
  (silent_fitting Enumerated).outer (fun _ hk => enumerated_of_other fun h => hk (by simp [h])) hs

/-- A declaration with the attributes and modifiers before it. -/
theorem declared_enumerated (hs : ∀ r, Builds Silent Enumerated (self r)) (enclosing : Option String) :
    Builds Silent Enumerated (declared self enclosing) := by
  have C := builds_congruence (silent_fitting Enumerated)
  have g := enumerated_outer hs
  intro ts herr
  rw [declared_eq] at herr ⊢
  unfold headed at herr ⊢
  dsimp only at herr ⊢
  cases hpick : declarationFor self enclosing
      (declarationLook (all [attributeLists self, modifiers] ts).rest) with
  | some found =>
      obtain ⟨k, p⟩ := found
      simp only [hpick] at herr ⊢
      obtain ⟨hlead, hrest⟩ := Step.andThen_errors.1 herr
      have hp := ((declarationFor_congr (H := fun _ _ => True) C g (fun _ _ _ => trivial)
        (by constructor <;> trivial) enclosing _).left k p hpick).2
      refine ⟨⟨?_, Builds.seq silent_parts (lead_congr C g) hp ts herr⟩, trivial⟩
      by_cases hk : k = .enumDeclaration
      · subst hk
        obtain ⟨hcurrent, rfl⟩ := declarationFor_enum hpick
        exact fun _ => (lead_unlisted self hlead).parted (enumDeclaration_parted self hcurrent hrest)
      · exact enumerated_of_other hk _
  | none =>
      simp only [hpick] at herr ⊢
      split at herr
      · next hstuck =>
        rw [if_pos hstuck]
        exact lead_congr C g ts herr
      · exact absurd (Step.andThen_errors.1 herr).2 (by simp [complain])

/-- What the whole grammar asks. -/
theorem enumerated_ground (hs : ∀ r, Builds Silent Enumerated (self r)) :
    Ground (Alone (Builds Silent Enumerated)) (Tops Silent Enumerated) (fun _ _ => True) self self :=
  ⟨enumerated_outer hs, declared_enumerated hs⟩

/-- Every enumeration of a file that is read without complaints is made so. -/
theorem source_enumerated : Builds Silent Enumerated source :=
  (silent_fitting Enumerated).ofSource (fun _ => enumerated_ground)
    (enumerated_of_other (k := .compilationUnit) nofun)

end Parse

/-- **In a text without complaints, the members of an enumeration stand behind its opening brace, and
no other node does.** -/
theorem parse_enumerated {text : String} (herr : (parse text).2 = []) :
    (parse text).1.EveryNode Parse.Enumerated :=
  (Parse.source_enumerated (lex text).1
    (List.append_eq_nil_iff.1 (SyntaxError.sortByStart_eq_nil.1 herr)).2).1

end CodeMend

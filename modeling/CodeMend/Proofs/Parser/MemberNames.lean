import CodeMend.Proofs.Parser.Foresight

/-!
# Methods and properties have a name

A member is taken for a method or a property by looking ahead over its type: behind the type there is
an identifier.  Then the type is read by the rule for types.  As the rule stops where the search did
(`unfold_leaves`), the token that is taken for the name is that identifier, whatever the text is
(`type_lookahead_agrees`).

How many tokens the type takes is known before it is read (`typeLength?`).
-/

namespace CodeMend

namespace Parse

open Tree

/-! ## How long a type is -/

/-- How many significant tokens the type that comes next takes, if one does. -/
def typeLength? (ts : List Token) : Option Nat :=
  (pastType true ts).map fun ks => (kinds ts).length - ks.length

/-- The kinds behind a type, told by how long it is. -/
theorem typeLength_eq_some {ts : List Token} {i : Nat} (h : typeLength? ts = some i) :
    ∃ before after, pastType true ts = some after ∧ kinds ts = before ++ after ∧ before.length = i := by
  obtain ⟨after, hafter, rfl⟩ := Option.map_eq_some_iff.1 h
  obtain ⟨before, hbefore⟩ := behindType_suffix hafter
  refine ⟨before, after, hafter, hbefore.symm, ?_⟩
  rw [← hbefore, List.length_append]
  omega

/-- The kinds behind a type are told by their places ahead. -/
theorem not_ranked_of_nth {ts : List Token} {before after : List Kind}
    (hkinds : kinds ts = before ++ after)
    (h : ¬ (nth before.length ts = .lBracket ∧ nth (before.length + 1) ts = .comma)) :
    ¬ Ranked after := by
  rintro ⟨rest, rfl⟩
  refine h ⟨?_, ?_⟩
  · rw [nth_of_kinds hkinds, List.getElem?_append_right (Nat.le_refl _), Nat.sub_self]
    rfl
  · rw [nth_of_kinds hkinds, List.getElem?_append_right (Nat.le_add_right _ 1),
      Nat.add_sub_cancel_left]
    rfl

theorem node_built (k : Kind) (ps : List Parser) (ts : List Token) :
    ∃ cs, (node k ps ts).built = (flush ts).built ++ [.node k cs] := by
  unfold node
  rw [all_pair]
  exact ⟨_, rfl⟩

/-- Where a type starts, the rule for types builds one node. -/
theorem typePhrase_built {self : Rule → Parser} {ts : List Token} (h : startsType ts = true) :
    ∃ cs, (typePhrase self ts).built = (flush ts).built ++ [.node .type cs] := by
  unfold typePhrase either
  split
  · exact node_built _ _ ts
  · exact node_built _ _ ts

/-- A depth at which the type ahead can be read: one that exceeds the kinds ahead, or one at which no
bound is reached. -/
def Suffices (n : Nat) (ts : List Token) : Prop :=
  (kinds ts).length < n ∨ (unfold n .type ts).cut = false

/-- Where the search finds a type, the rule builds the trivia before it and one node. -/
theorem unfold_type_built {n : Nat} {ts : List Token} {ks : List Kind} (hn : Suffices n ts)
    (h : pastType true ts = some ks) :
    ∃ cs, (unfold n .type ts).built = (flush ts).built ++ [.node .type cs] := by
  cases n with
  | zero =>
      rcases hn with hn | hcut
      · exact absurd hn (Nat.not_lt_zero _)
      · cases hcut
  | succ n => exact typePhrase_built (startsType_of_pastType (by rw [h]; rfl))

/-! ## The name behind a type -/

/-- Methods and properties have an identifier right below them. -/
def Named (k : Kind) (cs : List Tree) : Prop :=
  k ∈ [.methodDeclaration, .propertyDeclaration] → ∃ text, .token .ident text ∈ cs

theorem named_of_other {k : Kind} (hk : k ∉ [.methodDeclaration, .propertyDeclaration])
    (cs : List Tree) : Named k cs := fun h => absurd h hk

theorem named_fitting : Fitting Uncut Named :=
  ⟨uncut_parts, fun _ _ => named_of_other (by decide)⟩

/-- Where it is not cut, the rule takes the type that the search finds. -/
def Foretold (p : Parser) : Prop :=
  ∀ ts ks, (p ts).cut = false → pastType true ts = some ks → ¬ Ranked ks → (p ts).Leaves ts ks

theorem unfold_foretold (n : Nat) : Foretold (unfold n .type) := fun _ _ hcut h hranked =>
  unfold_leaves (.inr hcut) h hranked

/-- An identifier that was seen behind a type is there once the type is read. -/
theorem ident_behind_type {p : Parser} (hp : Foretold p) {ps : List Parser} {ts : List Token}
    {ks : List Kind} (hcut : (all (p :: bump :: ps) ts).cut = false)
    (h : pastType true ts = some (.ident :: ks)) :
    ∃ text, .token .ident text ∈ (all (p :: bump :: ps) ts).built := by
  have hleft := (hp ts _ (cut_andThen hcut).1 h (by simp [Ranked])).left
  have hcurrent : current (p ts).rest = .ident := by
    rw [current, nth_of_kinds hleft]
    rfl
  obtain ⟨text, hbuilt⟩ := bump_built (not_atEnd_of_current (by decide) hcurrent)
  refine ⟨text, List.mem_append_right _ (List.mem_append_left _ ?_)⟩
  rw [hbuilt, hcurrent]
  exact List.mem_append_right _ List.mem_cons_self

/-- A method or a property starts with a type and a name, and both were seen. -/
theorem declarationFor_named {inner : Rule → Parser} {enclosing : Option String}
    {x : (Kind × Kind) × String × Option (List Kind)} {k : Kind} {p : Parser}
    (h : declarationFor inner enclosing x = some (k, p))
    (hk : k ∈ [.methodDeclaration, .propertyDeclaration]) :
    ∃ ks ps, x.2.2 = some (.ident :: ks) ∧ p = all (inner .type :: bump :: ps) := by
  cases declares_of_declarationFor h with
  | type keyword kind =>
      have hapart : ∀ l ∈ [Kind.classDeclaration, .structDeclaration, .interfaceDeclaration],
          l ∉ [Kind.methodDeclaration, .propertyDeclaration] := by decide
      exact absurd hk (hapart k kind)
  | method named => exact ⟨_, _, named, rfl⟩
  | property named => exact ⟨_, _, named, rfl⟩
  | enum | constructor | field | nameless => exact absurd hk (by decide)

variable {self : Rule → Parser}

/-- A declaration, chosen by what is ahead, is read as what it was chosen for. -/
theorem declared_named (htype : Foretold (self .type))
    (g : Outer (Alone (Builds Uncut Named)) (Tops Uncut Named) (fun _ _ => True) self self)
    (enclosing : Option String) : Builds Uncut Named (declared self enclosing) := by
  have C := builds_congruence named_fitting
  rw [declared_eq]
  refine headed_builds named_fitting (lead_congr C g) fun us k p hpick => ⟨fun before hcut hk => ?_, ?_⟩
  · obtain ⟨ks, ps, htype', rfl⟩ := declarationFor_named hpick hk
    obtain ⟨text, hmem⟩ := ident_behind_type htype hcut htype'
    exact ⟨text, List.mem_append_right _ hmem⟩
  · exact ((declarationFor_congr (H := fun _ _ => True) C g (fun _ _ _ => trivial)
      (by constructor <;> trivial) enclosing _).left k p hpick).2

theorem named_ground (hs : ∀ r, Builds Uncut Named (self r)) (htype : Foretold (self .type)) :
    Ground (Alone (Builds Uncut Named)) (Tops Uncut Named) (fun _ _ => True) self self := by
  have g := named_fitting.outer (fun k hk => named_of_other fun h => hk (by simp_all)) hs
  exact ⟨g, declared_named htype g⟩

theorem source_named : Builds Uncut Named source :=
  named_fitting.ofSource (fun n hs => named_ground hs (unfold_foretold n))
    (named_of_other (k := .compilationUnit) (by decide))

end Parse

/-- **Looking ahead over a type agrees with reading it.**  If a type of `i` significant tokens is
foreseen, and it is not followed by `[` and a comma, then the rule for types takes just these tokens,
has nothing to complain about and builds one node of a type behind the trivia before it.  So in the tree
of every text each method and each property has an identifier right below it. -/
theorem type_lookahead_agrees :
    (∀ (ts : List Token) (i n : Nat), Parse.typeLength? ts = some i →
      ¬ (Parse.nth i ts = .lBracket ∧ Parse.nth (i + 1) ts = .comma) → Parse.Suffices n ts →
      ∃ taken cs, ts = taken ++ (Parse.unfold n .type ts).rest ∧
        (Parse.significant taken).length = i ∧
        (Parse.unfold n .type ts).errors = [] ∧
        (Parse.unfold n .type ts).built = (Parse.flush ts).built ++ [.node .type cs]) ∧
    ∀ text : String, (parse text).1.EveryNode Parse.Named := by
  refine ⟨fun ts i n hlength hnext hn => ?_, fun text => ?_⟩
  · obtain ⟨before, after, hpast, hkinds, rfl⟩ := Parse.typeLength_eq_some hlength
    obtain ⟨⟨taken, htaken⟩, hleft, hsilent⟩ :=
      Parse.unfold_leaves hn hpast (Parse.not_ranked_of_nth hkinds hnext)
    obtain ⟨cs, hbuilt⟩ := Parse.unfold_type_built hn hpast
    refine ⟨taken, cs, htaken.split, ?_, hsilent, hbuilt⟩
    have hall : Parse.kinds taken ++ after = before ++ after := by
      rw [← hkinds, ← hleft, Parse.kinds, Parse.kinds, ← List.map_append,
        ← Parse.significant_append, ← htaken.split, Parse.kinds]
    rw [← List.append_cancel_right hall, Parse.kinds, List.length_map]
  · have hsource := Parse.source_named (lex text).1 (source_uncut text)
    rw [source_eq] at hsource
    exact hsource.1

/-- Type arguments inside one another, with a rank specifier and a `?`: ten tokens before the name. -/
theorem type_lookahead_agrees_nested :
    let ts : List Token := [⟨.ident, "A", 0⟩, ⟨.lt, "<", 1⟩, ⟨.ident, "B", 2⟩, ⟨.lt, "<", 3⟩,
      ⟨.intKw, "int", 4⟩, ⟨.lBracket, "[", 7⟩, ⟨.rBracket, "]", 8⟩, ⟨.gt, ">", 9⟩, ⟨.gt, ">", 10⟩,
      ⟨.question, "?", 11⟩, ⟨.whitespace, " ", 12⟩, ⟨.ident, "c", 13⟩, ⟨.endOfFile, "", 14⟩]
    Parse.typeLength? ts = some 10 ∧
      ∃ taken cs, ts = taken ++ (Parse.unfold 20 .type ts).rest ∧
        (Parse.significant taken).length = 10 ∧ (Parse.unfold 20 .type ts).errors = [] ∧
        (Parse.unfold 20 .type ts).built = (Parse.flush ts).built ++ [.node .type cs] := by
  intro ts
  have hlength : Parse.typeLength? ts = some 10 := by decide
  exact ⟨hlength, type_lookahead_agrees.1 ts 10 20 hlength (by decide) (.inl (by decide))⟩

end CodeMend

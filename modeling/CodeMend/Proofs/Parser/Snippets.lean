import Mathlib.Data.Option.Basic
import CodeMend.Proofs.Lexer.Seams
import CodeMend.Proofs.Parser.Rebuilding
import CodeMend.Syntax.Snippet

/-!
# Snippets of expressions

An expression is read as the value of a field in a class of its own.  The declarations around it are
read token by token (`field_reads`, `class_reads`), so the text of an expression gives the tree of the
expression (`expression_of_text`).
-/

namespace CodeMend.Parse

open Tree Lexer

variable {A : List Token → Prop} {p q : Parser} {look : Look} {xs lead : Stored} {trees : List Tree}
  {k : Kind}

/-! ## Loops of one turn -/

/-- The tokens at the front and those behind them are all of them. -/
theorem Starts.length {ts rest : List Token} (h : Starts xs ts rest) :
    ts.length = xs.length + rest.length := by
  obtain ⟨us, rfl, rfl⟩ := h
  simp

/-- What takes a token is not stuck. -/
theorem Reads.orWhenStuck (h : Reads A p xs trees) (hne : xs ≠ []) :
    Reads A (orWhenStuck p q) xs trees := by
  intro ts rest hstarts hafter hcut
  have hp : (p ts).cut = false := by
    simp only [Parse.orWhenStuck] at hcut
    split at hcut
    · exact (cut_andThen hcut).1
    · exact hcut
  have hread := h ts rest hstarts hafter hp
  have hlength := hstarts.length
  have hpos := List.length_pos_iff.2 hne
  have hmoved : stuck ts ⟨trees, [], rest, false⟩ = false := by
    simp [stuck]
    omega
  simp [Parse.orWhenStuck, hread, hmoved]

/-- A loop whose test holds once. -/
theorem Reads.repeatOnce (h : Reads A p xs trees)
    (hlook : ∀ ts rest, Starts xs ts rest → look ts = true)
    (hrest : ∀ rest, A rest → look rest = false) : Reads A (repeatWhile look p) xs trees := by
  intro ts rest hstarts hafter
  unfold repeatWhile loop
  cases ts.length with
  | zero =>
      intro hcut
      simp [turns, given, either, hlook ts rest hstarts, giveUp] at hcut
  | succ n =>
      intro hcut
      simp only [turns, hlook ts rest hstarts, if_true] at hcut ⊢
      have hread := h ts rest hstarts hafter (cut_andThen hcut).1
      rw [hread]
      cases n with
      | zero => simp [Step.andThen, turns, given, either, hrest rest hafter, done]
      | succ n => simp [Step.andThen, turns, hrest rest hafter, done]

/-- A list of one item. -/
theorem Reads.separatedOnce (h : Reads A p xs trees) (hrest : ∀ rest, A rest → ahead .comma rest = false) :
    Reads A (separated p) xs trees := by
  intro ts rest hstarts hafter
  unfold separated loop
  cases ts.length with
  | zero =>
      intro hcut
      simp [turns, given, either, giveUp] at hcut
  | succ n =>
      intro hcut
      have hp : (p ts).cut = false := by
        simp only [turns, if_true] at hcut
        split at hcut
        · exact commaTurn_cut (cut_andThen hcut).1
        · exact commaTurn_cut hcut
      have hread := h ts rest hstarts hafter hp
      simp [turns, commaTurn, hread, hrest rest hafter, stop, done, Step.andThen]

/-! ## Declarations around an expression -/

/-- What is behind is of kind `k`. -/
def Next (k : Kind) (rest : List Token) : Prop := current rest = k

/-- What follows the tokens before it is the first significant one of its own. -/
theorem Starts.next {mid rest : List Token} (h : Starts xs mid rest)
    (hk : (kindsOf xs).head? = some k) : Next k mid := by
  obtain ⟨ks, hks⟩ := List.head?_eq_some_iff.1 hk
  have hkinds := h.kinds
  rw [hks] at hkinds
  exact current_of_kinds hkinds

/-- Only one kind is next. -/
theorem not_ahead {k l : Kind} {rest : List Token} (h : Next k rest) (hne : k ≠ l) :
    ahead l rest = false := by
  have hcurrent : current rest = k := h
  simp [ahead, hcurrent, hne]

/-- A loop whose test fails does nothing. -/
theorem loop_done {turn : List Token → Turn} {ts : List Token} (h : look ts = false) :
    loop look turn ts = done ts := by
  unfold loop
  cases ts.length with
  | zero => simp [turns, given, either, h]
  | succ n => simp [turns, h]

/-- A declaration without attributes and modifiers. -/
theorem declared_reads {enclosing : Option String} {l : Kind} {n : Nat}
    (hhead : HeadOf k xs) (hbracket : k ≠ .lBracket) (hmodifier : k.isModifier = false)
    (hdeclaration : ∀ ts rest, Starts xs ts rest →
      declaration? (unfold n) enclosing ts = some (l, p))
    (h : Reads A p xs trees) : Reads A (declared (unfold n) enclosing) xs [.node l trees] := by
  intro ts rest hstarts hafter hcut
  have hcurrent := hhead.current hstarts
  have hlead : all [attributeLists (unfold n), modifiers] ts = ⟨[], [], ts, false⟩ := by
    have hattributes : attributeLists (unfold n) ts = done ts :=
      loop_done (by simp [ahead, hcurrent, hbracket])
    have hmodifiers : modifiers ts = done ts := loop_done (by simp [hcurrent, hmodifier])
    rw [all_pair]
    simp only [hattributes, done, Step.andThen, hmodifiers, List.append_nil, Bool.or_self]
  simp only [declared, hlead, hdeclaration ts rest hstarts, under, Step.andThen, List.nil_append,
    Bool.false_or] at hcut ⊢
  rw [h ts rest hstarts hafter hcut]

/-- The word `object` before a name is read as a type without brackets or question mark behind
it. -/
theorem type_reads (n : Nat) :
    Reads (Next .ident) (unfold n .type) [(.objectKw, "object")]
      [.node .type [.token .objectKw "object"]] := by
  cases n with
  | zero => exact reads_zero
  | succ n =>
      have hhead : HeadOf .objectKw [(.objectKw, "object")] := ⟨rfl, _, _, rfl⟩
      have hquestion : Reads (Next .ident) (eat .question) [] [] :=
        given_reads_none fun rest hnext => not_ahead hnext nofun
      have hranks : Reads (Next .ident) (repeatWhile (fun ts => ahead .lBracket ts &&
          (aheadAt 1 .rBracket ts || aheadAt 1 .comma ts)) rank) [] [] :=
        loop_reads_none fun rest hnext => by simp [not_ahead hnext (l := .lBracket) nofun]
      have hsuffix := hquestion.cons hranks.single fun mid rest hmid hnext => by
        rwa [starts_nil hmid]
      have hrow := (bump_reads (k := .objectKw) rfl nofun "object" lead_nil).cons hsuffix.single
        fun _ _ _ _ => trivial
      have hnode := hrow.node (k := .type) lead_nil hhead
      refine (hnode.either_pos fun ts rest hstarts _ => ?_).either_neg fun ts rest hstarts _ => ?_
      · have hcurrent := hhead.current hstarts
        simp only [startsType, hcurrent]
        decide
      · have hcurrent := hhead.current hstarts
        simp [ahead, hcurrent]

variable {gap : Stored} {t : Tree}

/-- An expression behind `=`. -/
theorem equalsValue_reads (hgap : Lead gap) (hwhole : Whole t) (n : Nat) :
    Reads (Stops 0) (given (ahead .eq) (equalsValue (unfold n)))
      (gap ++ ((.eq, "=") :: (gap ++ t.tokens)))
      (leaves gap ++ [.node .equalsValueClause (.token .eq "=" :: (leaves gap ++ [t]))]) := by
  have hrow := (bump_reads (k := .eq) rfl nofun "=" lead_nil).cons (hwhole n gap hgap).single
    fun _ _ _ _ => trivial
  have hnode := hrow.node (k := .equalsValueClause) hgap (⟨rfl, _, _, rfl⟩ : HeadOf .eq _)
  refine Reads.either_pos hnode fun ts rest hstarts _ => ?_
  simp [ahead, hstarts.current hgap (⟨rfl, _, _, rfl⟩ : HeadOf .eq _)]

/-- The tree of a field of type `object` with a value. -/
def fieldTree (gap : List Tree) (f : String) (value : Tree) : Tree :=
  .node .fieldDeclaration
    [.node .variableDeclaration
      (.node .type [.token .objectKw "object"] :: (gap ++
        [.node .variableDeclarator (.token .ident f :: (gap ++
          [.node .equalsValueClause (.token .eq "=" :: (gap ++ [value]))]))])),
     .token .semicolon ";"]

/-- A semicolon ends every expression. -/
theorem stops_of_semicolon {rest : List Token} (h : Next .semicolon rest) : Stops 0 rest := by
  have hcurrent : current rest = .semicolon := h
  refine ⟨?_, Or.inl (by rw [hcurrent]; decide)⟩
  intro k hk
  cases hkinds : kinds rest with
  | nil => simp [hkinds] at hk
  | cons l ks =>
      obtain rfl : l = .semicolon := by simpa [current, nth, hkinds] using hcurrent
      simp [hkinds] at hk

/-- A variable of type `object` with an expression as its value. -/
theorem variable_reads (hgap : Lead gap) (hwhole : Whole t) (n : Nat) (f : String) :
    Reads (Next .semicolon) (variableDeclaration (unfold n))
      ((.objectKw, "object") :: (gap ++ ((.ident, f) :: (gap ++ ((.eq, "=") :: (gap ++ t.tokens))))))
      [.node .variableDeclaration
        (.node .type [.token .objectKw "object"] :: (leaves gap ++
          [.node .variableDeclarator (.token .ident f :: (leaves gap ++
            [.node .equalsValueClause (.token .eq "=" :: (leaves gap ++ [t]))]))]))] := by
  have hrow := (bump_reads (k := .ident) rfl (by decide) f lead_nil).cons
    (equalsValue_reads hgap hwhole n).single fun _ _ _ _ => trivial
  have hnode := hrow.node (k := .variableDeclarator) hgap (⟨rfl, _, _, rfl⟩ : HeadOf .ident _)
  have hdeclarator : Reads (Stops 0) (either (ahead .ident)
      (node .variableDeclarator [bump, given (ahead .eq) (equalsValue (unfold n))])
      (complain "Expected a variable name")) _ _ :=
    hnode.either_pos fun ts rest hstarts _ => by
      simp [ahead, hstarts.current hgap (⟨rfl, _, _, rfl⟩ : HeadOf .ident _)]
  have hitems := ((hdeclarator.weaken fun _ => stops_of_semicolon).separatedOnce
    fun rest hnext => not_ahead hnext (by decide)).single
  have hall := (type_reads n).cons hitems fun mid rest hmid _ =>
    hmid.current hgap (⟨rfl, _, _, rfl⟩ : HeadOf .ident _)
  exact hall.node (k := .variableDeclaration) lead_nil (⟨rfl, _, _, rfl⟩ : HeadOf .objectKw _)

/-- Behind `object` and a name, `=` makes a field. -/
theorem declaration_field {self : Rule → Parser} {enclosing : Option String} {ts : List Token}
    {ks : List Kind} (h : kinds ts = .objectKw :: .ident :: .eq :: ks) :
    declaration? self enclosing ts = some (.fieldDeclaration, field self) := by
  have hcurrent : current ts = .objectKw := current_of_kinds h
  have hpast : pastType true ts = some (.ident :: .eq :: ks) := by
    rw [pastType, h]
    rfl
  simp [declaration?, hcurrent, hpast]

/-- A field of type `object` with an expression as its value. -/
theorem field_reads (hgap : Lead gap) (hwhole : Whole t) (n : Nat) (enclosing : Option String)
    (f : String) :
    Reads Anything (unfold n (.member enclosing)) (gap ++ (fieldTree (leaves gap) f t).tokens)
      (leaves gap ++ [fieldTree (leaves gap) f t]) := by
  cases n with
  | zero => exact reads_zero
  | succ n =>
      have hsemicolon := (expect_reads (k := .semicolon) rfl (by decide) ";" lead_nil).single
      have hfield := (variable_reads hgap hwhole n f).cons hsemicolon fun mid rest hmid _ =>
        hmid.current lead_nil (⟨rfl, _, _, rfl⟩ : HeadOf .semicolon _)
      have htokens : (fieldTree (leaves gap) f t).tokens =
          (.objectKw, "object") :: (gap ++ ((.ident, f) :: (gap ++ ((.eq, "=") :: (gap ++ t.tokens))))) ++
            ([] ++ [(.semicolon, ";")]) := by
        simp [fieldTree, tokens, tokensAll, tokensAll_append]
      rw [← htokens] at hfield
      have hhead : HeadOf .objectKw (fieldTree (leaves gap) f t).tokens := ⟨rfl, _, _, rfl⟩
      have hdeclared : Reads Anything (declared (unfold n) enclosing)
          (fieldTree (leaves gap) f t).tokens [fieldTree (leaves gap) f t] := by
        refine declared_reads hhead (by decide) rfl (fun ts rest hstarts => ?_) hfield
        have hkinds := hstarts.kinds
        simp only [htokens, List.cons_append, List.append_assoc, kindsOf_append, kindsOf_lead hgap,
          kindsOf_cons (k := .objectKw) rfl, kindsOf_cons (k := .ident) rfl,
          kindsOf_cons (k := .eq) rfl, List.nil_append] at hkinds
        exact declaration_field hkinds
      intro ts rest hstarts hafter hcut
      have hcurrent := hstarts.current hgap hhead
      have hphrase : unfold (n + 1) (.member enclosing) ts =
          all [flush, declared (unfold n) enclosing] ts := by
        show memberFor (unfold n) enclosing (current ts) ts = _
        rw [hcurrent]
        rfl
      rw [hphrase] at hcut ⊢
      exact hdeclared.flush hgap hhead ts rest hstarts hafter hcut

/-- The tree of a class with one member. -/
def classTree (gap : List Tree) (c : String) (member : Tree) : Tree :=
  .node .classDeclaration (.token .classKw "class" :: (gap ++ .token .ident c :: (gap ++
    .token .lBrace "\x7b" :: (gap ++ member :: (gap ++ [.token .rBrace "\x7d"])))))

/-- A choice between parsers that all read the tokens reads them. -/
theorem Reads.uniform {β : Type} {parser : β → Parser} (choose : List Token → β)
    (h : ∀ b, Reads A (parser b) xs trees) : Reads A (fun ts => parser (choose ts) ts) xs trees :=
  fun ts => h (choose ts) ts

/-- What follows the word `class`: the name of the class and its one member. -/
theorem classBody_reads (hgap : Lead gap) {member : Tree} {l : Kind} (hhead : HeadOf l member.tokens)
    (hl : l ≠ .rBrace ∧ l ≠ .endOfFile) (n : Nat) (c : String)
    (hmember : ∀ enclosing, Reads Anything (unfold n (.member enclosing)) (gap ++ member.tokens)
      (leaves gap ++ [member])) (enclosing : Option String) :
    Reads (Next .endOfFile) (all [expect .ident, given (ahead .lt) typeParameters,
        given (ahead .colon) (baseList (unfold n)), constraints, expect .lBrace,
        memberList (unfold n) enclosing, expect .rBrace, eat .semicolon])
      (gap ++ ((.ident, c) :: (gap ++ ((.lBrace, "\x7b") :: (gap ++ (member.tokens ++
        (gap ++ [(.rBrace, "\x7d")])))))))
      (leaves gap ++ .token .ident c :: (leaves gap ++ .token .lBrace "\x7b" ::
        (leaves gap ++ member :: (leaves gap ++ [.token .rBrace "\x7d"])))) := by
  have hsemicolon : Reads (Next .endOfFile) (eat .semicolon) [] [] :=
    given_reads_none fun rest hnext => not_ahead hnext (by decide)
  have hbrace := (expect_reads (k := .rBrace) rfl (by decide) "\x7d" hgap).cons hsemicolon.single
    fun _ _ _ _ => trivial
  have hmembers : Reads (Next .rBrace) (memberList (unfold n) enclosing) (gap ++ member.tokens)
      (leaves gap ++ [member]) := by
    have hne : gap ++ member.tokens ≠ [] := by
      obtain ⟨-, s, us, hus⟩ := hhead
      simp [hus]
    refine (((hmember enclosing).orWhenStuck hne).weaken fun _ _ => trivial).repeatOnce
      (fun ts rest hstarts => ?_) fun rest hnext => ?_
    · simp [ahead, atEnd, hstarts.current hgap hhead, hl]
    · have hcurrent : current rest = .rBrace := hnext
      simp [ahead, hcurrent]
  have hinside := hmembers.cons hbrace fun mid rest hmid _ =>
    hmid.next (by simp [kindsOf_lead hgap, kindsOf_cons (k := .rBrace) rfl])
  have hopened := (expect_reads (k := .lBrace) rfl (by decide) "\x7b" hgap).cons hinside
    fun _ _ _ _ => trivial
  have hconstraints : Reads (Next .lBrace) constraints [] [] :=
    loop_reads_none fun rest hnext => by simp [not_ahead hnext (l := .ident) (by decide)]
  have hbase : Reads (Next .lBrace) (given (ahead .colon) (baseList (unfold n))) [] [] :=
    given_reads_none fun rest hnext => not_ahead hnext (by decide)
  have hparameters : Reads (Next .lBrace) (given (ahead .lt) typeParameters) [] [] :=
    given_reads_none fun rest hnext => not_ahead hnext (by decide)
  have hrow := (expect_reads (k := .ident) rfl (by decide) c hgap).cons
    (hparameters.cons (hbase.cons (hconstraints.cons hopened ?_) ?_) ?_) fun _ _ _ _ => trivial
  · simpa using hrow
  all_goals
    intro mid rest hmid _
    exact hmid.next (by simp [kindsOf_lead hgap, kindsOf_cons (k := .lBrace) rfl])

/-- A class with one member. -/
theorem class_reads (hgap : Lead gap) {member : Tree} {l : Kind} (hhead : HeadOf l member.tokens)
    (hl : l ≠ .rBrace ∧ l ≠ .endOfFile) (c : String)
    (hmember : ∀ n enclosing, Reads Anything (unfold n (.member enclosing)) (gap ++ member.tokens)
      (leaves gap ++ [member])) (n : Nat) :
    Reads (Next .endOfFile) (unfold n (.member none)) (classTree (leaves gap) c member).tokens
      [classTree (leaves gap) c member] := by
  cases n with
  | zero => exact reads_zero
  | succ n =>
      have hbody := (Reads.uniform (fun ts => some (currentText ts)) fun enclosing =>
        classBody_reads hgap hhead hl n c (hmember n) enclosing).single
      have hrow := (bump_reads (k := .classKw) rfl (by decide) "class" lead_nil).cons hbody
        fun _ _ _ _ => trivial
      have htokens : (classTree (leaves gap) c member).tokens = [] ++ [(.classKw, "class")] ++
          (gap ++ ((.ident, c) :: (gap ++ ((.lBrace, "\x7b") :: (gap ++ (member.tokens ++
            (gap ++ [(.rBrace, "\x7d")]))))))) := by
        simp [classTree, tokens, tokensAll, tokensAll_append]
      rw [← htokens] at hrow
      have hhead : HeadOf .classKw (classTree (leaves gap) c member).tokens := ⟨rfl, _, _, rfl⟩
      have hdeclared : Reads (Next .endOfFile) (declared (unfold n) none)
          (classTree (leaves gap) c member).tokens [classTree (leaves gap) c member] := by
        refine declared_reads hhead (by decide) rfl (fun ts rest hstarts => ?_) hrow
        have hcurrent := hhead.current hstarts
        simp only [declaration?, hcurrent]
        rfl
      intro ts rest hstarts hafter hcut
      have hcurrent := hhead.current hstarts
      have hphrase : unfold (n + 1) (.member none) ts = all [flush, declared (unfold n) none] ts := by
        show memberFor (unfold n) none (current ts) ts = _
        rw [hcurrent]
        rfl
      rw [hphrase] at hcut ⊢
      exact hdeclared.flush lead_nil hhead ts rest hstarts hafter hcut

/-- Nothing significant is behind but the end of the file. -/
def Last (rest : List Token) : Prop := kinds rest = [.endOfFile]

/-- At the end nothing but the end of the file is next. -/
theorem Last.next {rest : List Token} (h : Last rest) : Next .endOfFile rest := current_of_kinds h

/-- A file with one declaration in it. -/
theorem source_reads {ts : List Token} {unit : Tree} {l : Kind} (hhead : HeadOf l unit.tokens)
    (hl : l ≠ .endOfFile)
    (hreads : ∀ n, Reads Last (unfold n (.member none)) unit.tokens [unit])
    (hstored : ts.map Token.stored = unit.tokens ++ [(.endOfFile, "")]) :
    (source ts).built = [.node .compilationUnit [unit, .token .endOfFile ""]] ∧
      (source ts).errors = [] := by
  obtain ⟨us, vs, rfl, hus, hvs⟩ := List.map_eq_append_iff.1 hstored
  obtain ⟨eof, rfl, heof⟩ : ∃ eof : Token, vs = [eof] ∧ eof.stored = (.endOfFile, "") := by
    obtain ⟨eof, ws, rfl, heof, hws⟩ := List.map_eq_cons_iff.1 hvs
    exact ⟨eof, by rw [List.map_eq_nil_iff.1 hws], heof⟩
  obtain ⟨kind, text, start⟩ := eof
  obtain ⟨rfl, rfl⟩ : kind = .endOfFile ∧ text = "" := Prod.mk.inj heof
  generalize heofToken : (⟨.endOfFile, "", start⟩ : Token) = eof
  have hended : Ended (us ++ [eof]) := ⟨eof, by simp, by rw [← heofToken]⟩
  have huncut := (declarations_keeps (safe_source _) _ (room_source hended)).uncut
  unfold source
  generalize rulesPerToken * ((us ++ [eof]).length + 1) = n at huncut ⊢
  have hstarts : Starts unit.tokens (us ++ [eof]) [eof] := ⟨us, hus, rfl⟩
  have hlast : Last [eof] := by
    rw [← heofToken]
    rfl
  have hne : unit.tokens ≠ [] := by
    obtain ⟨-, s, ws, hws⟩ := hhead
    simp [hws]
  have hdeclarations : declarations (unfold n) (us ++ [eof]) = ⟨[unit], [], [eof], false⟩ := by
    refine (((hreads n).orWhenStuck hne).repeatOnce (fun ts rest hstarts => ?_)
      fun rest hlast => ?_) _ _ hstarts hlast huncut
    · simp [atEnd, ahead, hhead.current hstarts, hl]
    · have hcurrent : current rest = .endOfFile := hlast.next
      simp [atEnd, ahead, hcurrent]
  obtain ⟨herrors, hbuilt⟩ := unit_eq (unfold n) (us ++ [eof])
  rw [herrors, hbuilt, hdeclarations, ← heofToken]
  exact ⟨rfl, rfl⟩

end CodeMend.Parse

namespace CodeMend

open Tree Lexer Parse

/-! ## The text of an expression -/

namespace Expression

/-- A blank as a gap. -/
abbrev spaced : Stored := [blank]

/-- A blank is trivia. -/
theorem lead_spaced : Lead spaced := by
  intro x hx
  obtain rfl := List.mem_singleton.1 hx
  rfl

/-- Parentheses around tidy tokens are words of their own. -/
theorem tidy_enclosed {t : Tree} {ws : List String} (h : Tidy t.tokens ws) :
    Tidy (enclosed (leaves spaced) t).tokens ("(" :: (ws ++ [")"])) := by
  have hopen : Spelled .lParen "(" := by decide +kernel
  have hclose : Spelled .rParen ")" := by decide +kernel
  have hall := (Tidy.word hopen).join (h.join (.word hclose))
  simpa [enclosed, tokens, tokensAll, tokensAll_append] using hall

/-- An operand is tidy, with or without parentheses. -/
theorem tidy_treeIn {e : Expression} (level : Nat)
    (h : Tidy (e.tree (leaves spaced)).tokens e.words) :
    Tidy (treeIn (leaves spaced) level e (e.tree (leaves spaced))).tokens (wordsIn level e e.words) := by
  unfold treeIn wordsIn
  split
  · exact tidy_enclosed h
  · exact h

/-- Arguments with commas between them are tidy. -/
theorem tidy_treeAll {e : Expression} {es : List Expression}
    (h : ∀ a ∈ e :: es, Tidy (a.tree (leaves spaced)).tokens a.words) :
    ∃ xs, tokensAll (treeAll (leaves spaced) (e :: es)) = blank :: xs ∧
      Tidy xs (wordsAll (e :: es)) := by
  induction es generalizing e with
  | nil =>
      refine ⟨(e.tree (leaves spaced)).tokens, ?_, ?_⟩
      · simp [treeAll, tokensAll, tokensAll_append, tokens]
      · exact h e List.mem_cons_self
  | cons f es ih =>
      obtain ⟨he, hes⟩ := List.forall_mem_cons.1 h
      obtain ⟨xs, hxs, htidy⟩ := ih hes
      have hcomma : Spelled .comma "," := by decide +kernel
      refine ⟨(e.tree (leaves spaced)).tokens ++ blank :: ([(.comma, ",")] ++ blank :: xs), ?_, ?_⟩
      · simp [treeAll, tokensAll, tokensAll_append, tokens, hxs]
      · exact he.join ((Tidy.word hcomma).join htidy)

/-- The marks are words. -/
theorem spelled_brackets (b : Brackets) :
    Spelled b.opening (mark b.opening) ∧ Spelled b.closing (mark b.closing) := by
  cases b <;> decide +kernel

/-- A sign is a word. -/
theorem spelled_sign (o : Sign) : Spelled o.kind (mark o.kind) := by
  have hsigns : ∀ k ∈ signs, Spelled k (mark k) := by decide +kernel
  exact hsigns o.kind o.mem

/-- The operators that are one token. -/
def marks : List Kind :=
  [.questionQuestion, .pipePipe, .ampAmp, .pipe, .caret, .amp, .eqEq, .bangEq, .lt, .gt, .ltEq, .gtEq,
   .ltLt, .plus, .minus, .star, .slash, .percent]

/-- An operator that is not a keyword is one of the marks. -/
theorem mem_marks {k : Kind} (binds : (precedence? k).isSome = true) (plain : k ≠ .isKw ∧ k ≠ .asKw) :
    k ∈ marks := by
  cases k <;> first | decide | exact absurd binds (by decide) | exact absurd plain (by decide)

/-- An operator is one word, also the one of two tokens. -/
theorem tidy_operator (o : Operator) : Tidy o.tokens [o.text] := by
  cases o with
  | mark k binds plain =>
      have hmarks : ∀ k ∈ marks, Spelled k (mark k) := by decide +kernel
      have hword := Tidy.word (hmarks k (mem_marks binds plain))
      simpa [Operator.text, Operator.tokens, textOf] using hword
  | shift => exact .shift

/-- The tokens of an expression are those of its words. -/
theorem tidy (e : Expression) : Tidy (e.tree (leaves spaced)).tokens e.words := by
  induction e using induct with
  | literal hk w => exact .word w.spelled
  | name w => exact .word w.spelled
  | paren e ih => exact tidy_enclosed ih
  | signed o e ih =>
      have hall := (Tidy.word (spelled_sign o)).join (tidy_treeIn signLevel ih)
      simpa [tree, words, tokens, tokensAll, tokensAll_append] using hall
  | member e n ih =>
      have hdot : Spelled .dot "." := by decide +kernel
      have hall := (tidy_treeIn suffixLevel ih).join ((Tidy.word hdot).join (.word n.spelled))
      simpa [tree, words, tokens, tokensAll, tokensAll_append] using hall
  | applied b e es ih ihs =>
      obtain ⟨hopen, hclose⟩ := spelled_brackets b
      cases es with
      | nil =>
          have hall := (tidy_treeIn suffixLevel ih).join ((Tidy.word hopen).join (.word hclose))
          simpa [tree, words, wordsAll, treeAll, tokens, tokensAll, tokensAll_append] using hall
      | cons a es =>
          obtain ⟨xs, hxs, htidy⟩ := tidy_treeAll ihs
          have hall := (tidy_treeIn suffixLevel ih).join
            ((Tidy.word hopen).join (htidy.join (.word hclose)))
          simpa [tree, words, tokens, tokensAll, tokensAll_append, hxs] using hall
  | binary o l r ihl ihr =>
      have hall := (tidy_treeIn o.left ihl).join ((tidy_operator o).join (tidy_treeIn o.right ihr))
      simpa [tree, words, tokens, tokensAll, tokensAll_append] using hall

/-- An expression is a node. -/
theorem tree_node (gap : List Tree) (e : Expression) :
    ∃ k cs, e.tree gap = .node k cs ∧ k.isExpression = true := by
  cases e with
  | applied b e es => cases b <;> exact ⟨_, _, rfl, by decide⟩
  | literal | name | paren | signed | member | binary => exact ⟨_, _, rfl, by decide⟩

end Expression

/-! ## Reading a snippet -/

namespace Snippet

open Expression

/-- The file in which an expression is read. -/
def housed (t : Tree) : Tree :=
  classTree (leaves spaced) "__Make" (fieldTree (leaves spaced) "__f" t)

/-- What follows the expression in the file. -/
abbrev closing : Stored := [(.semicolon, ";"), blank, (.rBrace, "\x7d")]

/-- The tokens of the file around an expression. -/
theorem tokens_housed (t : Tree) : (housed t).tokens =
    [(.classKw, "class"), blank, (.ident, "__Make"), blank, (.lBrace, "\x7b"), blank,
      (.objectKw, "object"), blank, (.ident, "__f"), blank, (.eq, "=")] ++
      (blank :: (t.tokens ++ closing)) := by
  simp [housed, classTree, fieldTree, tokens, tokensAll, tokensAll_append]

/-- What follows the expression reads back. -/
theorem closing_lexes : Lexes false closing := .cons rfl rfl (.cons rfl rfl (.cons rfl rfl (.nil _)))

/-- A tree that is read as an expression, from a text that neither starts nor ends with a blank. -/
structure Fits (t : Tree) : Prop where
  whole : Whole t
  node : ∃ k cs, t = .node k cs ∧ k.isExpression = true
  head : ∃ c cs, charsOf t.tokens = c :: cs ∧ Text.isBlank c = false
  last : EndsDark (charsOf t.tokens)
  lexes : ∀ {rest}, Lexes false rest → (∃ b v, charsOf rest = b :: v ∧ isStop b = true ∧ b ≠ '/') →
    Lexes false (t.tokens ++ rest)

variable {t : Tree}

/-- Trimming leaves the text of such a tree as it is. -/
theorem Fits.trim (h : Fits t) : Text.trim t.text = t.text := trim_textOf h.head h.last

/-- A blank and what stands behind it. -/
theorem Fits.lexes_blank (h : Fits t) {rest : Stored} (hrest : Lexes false rest)
    (hstop : ∃ b v, charsOf rest = b :: v ∧ isStop b = true ∧ b ≠ '/') :
    Lexes false (blank :: (t.tokens ++ rest)) := by
  obtain ⟨c, cs, hchars, hc⟩ := h.head
  have hspaced : " ".toList ++ charsOf (t.tokens ++ rest) = ' ' :: charsOf (t.tokens ++ rest) := rfl
  refine .cons hspaced ?_ (h.lexes hrest hstop)
  rw [charsOf_append, hchars]
  exact lexeme_blank hc _

/-- The tokens of the whole file read back. -/
theorem Fits.lexes_housed (h : Fits t) : Lexes true (housed t).tokens := by
  have hclass : Tidy [(.classKw, "class")] ["class"] := .word (by decide +kernel)
  have hmake : Tidy [(.ident, "__Make")] ["__Make"] := .word (by decide +kernel)
  have hbrace : Tidy [(.lBrace, "\x7b")] ["\x7b"] := .word (by decide +kernel)
  have hobject : Tidy [(.objectKw, "object")] ["object"] := .word (by decide +kernel)
  have hfield : Tidy [(.ident, "__f")] ["__f"] := .word (by decide +kernel)
  have heq : Tidy [(.eq, "=")] ["="] := .word (by decide +kernel)
  have htidy := hclass.join (hmake.join (hbrace.join (hobject.join (hfield.join heq))))
  have hblank := h.lexes_blank closing_lexes ⟨';', [' ', '\x7d'], rfl, rfl, by decide⟩
  have hlexes := htidy.lexes hblank ⟨' ', _, rfl, rfl, by decide⟩
  rw [tokens_housed]
  exact hlexes.anywhere rfl true

/-- Parsing the text of the file gives the tree in its house. -/
theorem Fits.parse_housed (h : Fits t) :
    parse (textOf (housed t).tokens) =
      (.node .compilationUnit [housed t, .token .endOfFile ""], []) := by
  obtain ⟨hstored, hlexErrors⟩ := lex_of_lexes h.lexes_housed
  have hfield := fun n enclosing => field_reads lead_spaced h.whole n enclosing "__f"
  have hclass := class_reads lead_spaced ⟨rfl, _, _, rfl⟩ (l := .objectKw) ⟨nofun, nofun⟩ "__Make" hfield
  obtain ⟨hbuilt, herrors⟩ := source_reads (l := .classKw) ⟨rfl, _, _, rfl⟩ nofun
    (fun n => (hclass n).weaken fun _ => Last.next) hstored
  simp [parse, hbuilt, hlexErrors, herrors, SyntaxError.sortByStart]
  rfl

/-- The first expression right below a value is the one that was put there. -/
theorem Fits.find_housed (h : Fits t) :
    ∃ s, (Site.top 0 (.node .compilationUnit [housed t, .token .endOfFile ""])).subnodes.find?
        (fun s => s.kind.isExpression && Snippet.below .equalsValueClause s) = some s ∧
      s.tree = t := by
  obtain ⟨k, cs, rfl, hk⟩ := h.node
  have hlabels : ∀ l ∈ [Kind.compilationUnit, .classDeclaration, .fieldDeclaration,
    .variableDeclaration, .variableDeclarator, .equalsValueClause], l.isExpression = false := by
    decide
  simp only [List.forall_mem_cons] at hlabels
  unfold housed
  simp [Site.subnodes, Site.subtree, Site.top, classTree, fieldTree, leaves, spaced, blank,
    Site.subtreeOf, Site.subtreesOf, Site.isNode, Tree.isNode, Tree.isToken, Site.kind, Tree.kind, hlabels, hk, Snippet.below, Site.parent?, Site.Frame.close]

/-- The text of the file is what the expression is put into. -/
theorem text_housed (t : Tree) :
    "class __Make \x7b object __f = " ++ t.text ++ "; \x7d" = textOf (housed t).tokens := by
  have hblank : textOf (blank :: (t.tokens ++ closing)) = " " ++ (t.text ++ textOf closing) := by
    rw [textOf_cons, textOf_append]
    rfl
  rw [tokens_housed, textOf_append, hblank, ← String.append_assoc, ← String.append_assoc]
  rfl

/-- A guard that holds lets the computation go on. -/
theorem guard_eq_some {p : Prop} [Decidable p] (h : p) : (guard p : Option Unit) = some () :=
  if_pos h

/-- **The snippet of a tree that fits is the tree.** -/
theorem Fits.expression_eq (h : Fits t) : Snippet.expression t.text = some t := by
  obtain ⟨s, hfind, htree⟩ := h.find_housed
  have htext : s.text = t.text := by rw [Site.text, htree]
  have hroot : (Document.ofText 0 (textOf (housed t).tokens)).root =
      Site.top 0 (.node .compilationUnit [housed t, .token .endOfFile ""]) := by
    simp only [Document.ofText, h.parse_housed, Document.root]
  have herrors : (Document.ofText 0 (textOf (housed t).tokens)).errors = [] := by
    simp only [Document.ofText, h.parse_housed]
  rw [Snippet.expression, h.trim, Snippet.lift, text_housed]
  simp [guard_eq_some, hroot, herrors, hfind, htext, htree]

end Snippet

namespace Expression

/-- The tree of every expression fits. -/
theorem fits (e : Expression) : Snippet.Fits (e.tree (leaves spaced)) where
  whole := (readable lead_spaced e).whole
  node := e.tree_node (leaves spaced)
  head := e.tidy.head
  last := e.tidy.last
  lexes := e.tidy.lexes

/-- **Printing and parsing expressions are inverse.**  The text of an expression, with a blank between
any two words and parentheses only where the place of an operand needs them, is read as an expression
whose nodes, nesting and tokens are those of the expression. -/
theorem expression_of_text (e : Expression) :
    ∃ t, Snippet.expression e.text = some t ∧ t.bare = e.shape := by
  have htext : e.text = (e.tree (leaves spaced)).text := e.tidy.text.symm
  refine ⟨e.tree (leaves spaced), ?_, bare_tree ?_ e⟩
  · rw [htext]
    exact e.fits.expression_eq
  · intro t ht
    obtain rfl := List.mem_singleton.1 ht
    rfl

end Expression

end CodeMend

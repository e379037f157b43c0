import CodeMend.Proofs.Lexer.Rereading
import CodeMend.Proofs.Parser.Declarations
import CodeMend.Proofs.Parser.Lookahead
import CodeMend.Syntax.Document

/-!
# Parsing loses nothing

The tree of a source text holds the tokens of the text, each once and in order, whatever the text
is.  The declarations take everything before the end of the file, so what is left for the last step
is the trivia before the end and the end itself (`source_built`).  `parse_tree` says besides how the
nodes of the tree start and end.
-/

namespace CodeMend

namespace Parse

open Tree

/-- None of the bounds that are given to the parser has a say in its result: no loop and no rule is
cut, and searches ahead find the same with any greater number of rounds. -/
structure Completes (ts : List Token) : Prop where
  uncut : (source ts).cut = false
  pastType : ∀ us nullable n, enough (kinds us) ≤ n →
    pastTypeIn n nullable (kinds us) = Parse.pastType nullable us
  pastTypeArguments : ∀ ks n, enough ks ≤ n →
    pastTypeArgumentsIn n ks = pastTypeArgumentsIn (enough ks) ks
  pastRanks : ∀ ks n, ks.length ≤ n → Parse.pastRanks n ks = Parse.pastRanks ks.length ks

variable {ts : List Token}

/-- The depth that is given to the rules leaves room for every token. -/
theorem room_source (hended : Ended ts) :
    Room (rulesPerToken * (ts.length + 1)) 2 ts :=
  ⟨hended, Or.inr (by rw [Nat.mul_succ]; exact Nat.add_le_add_left (by decide) _)⟩

theorem safe_source (ts : List Token) :
    Safe (rulesPerToken * (ts.length + 1)) (unfold (rulesPerToken * (ts.length + 1))) := by
  obtain ⟨n, hn⟩ : ∃ n, rulesPerToken * (ts.length + 1) = n + 2 :=
    ⟨rulesPerToken * ts.length + 6, Nat.mul_succ _ _⟩
  rw [hn]
  exact unfold_safe n

/-- What a step leaves of a file ends with the end of the file. -/
theorem Step.Tiles.rest_closed {s : Step} {body taken : List Token} {eof : Token}
    (htiles : s.Tiles (body ++ [eof]) taken) (heof : eof.kind = .endOfFile) :
    ∃ left, body = taken ++ left ∧ s.rest = left ++ [eof] := by
  rcases List.append_eq_append_iff.1 htiles.split with ⟨more, htaken, hrest⟩ | ⟨left, hbody, hrest⟩
  · cases more with
    | nil => exact ⟨[], by simpa using htaken.symm, by simpa using hrest.symm⟩
    | cons t more =>
        obtain ⟨rfl, -⟩ : eof = t ∧ _ := by simpa using hrest
        exact absurd heof (htiles.inside eof (by simp [htaken]))
  · exact ⟨left, hbody, hrest⟩

/-- Where only the end of the file is ahead, all tokens before it are trivia. -/
theorem flush_closed {left : List Token} {eof : Token} (heof : eof.kind = .endOfFile)
    (hleft : ∀ t ∈ left, t.kind ≠ .endOfFile) (hend : atEnd (left ++ [eof]) = true) :
    flush (left ++ [eof]) = ⟨left.map leaf, [], [eof], false⟩ := by
  have htrivia : ∀ t ∈ left, t.kind.isTrivia = true := by
    refine significant_eq_nil.1 ?_
    cases hsig : significant left with
    | nil => rfl
    | cons t more =>
        rw [atEnd_iff, current_eq, significant_append, hsig] at hend
        have hmem : t ∈ significant left := hsig ▸ List.mem_cons_self
        exact absurd hend (hleft t (List.mem_filter.1 hmem).1)
  have hstop : eof.kind.isTrivia = false := by rw [heof]; rfl
  simp only [flush]
  rw [List.takeWhile_append_of_pos htrivia, List.dropWhile_append_of_pos htrivia]
  simp [hstop]

/-- The declarations of a source file leave trivia and the end of the file. -/
theorem flush_declarations {body : List Token} {eof : Token} {inner : Rule → Parser} {n : Nat}
    (heof : eof.kind = .endOfFile) (hbody : ∀ t ∈ body, t.kind ≠ .endOfFile)
    (hsafe : Safe n inner) (hroom : Room n 2 (body ++ [eof])) :
    ∃ taken left, (declarations inner (body ++ [eof])).Tiles (body ++ [eof]) taken ∧
      body = taken ++ left ∧
      flush (declarations inner (body ++ [eof])).rest = ⟨left.map leaf, [], [eof], false⟩ := by
  have hend := declarations_atEnd hsafe hroom
  obtain ⟨taken, htiles⟩ := (declarations_keeps hsafe _ hroom).tiles
  obtain ⟨left, hsplit, hrest⟩ := htiles.rest_closed heof
  refine ⟨taken, left, htiles, hsplit, ?_⟩
  rw [hrest] at hend ⊢
  exact flush_closed heof (fun t ht => hbody t (by simp [hsplit, ht])) hend

/-- **A source file is read to its end.**  Its tree is one node that holds all its tokens, the end of
the file behind all other trees; no node in it starts with trivia, and if there is nothing to
complain about, each has a token and none ends with trivia. -/
theorem source_built {body : List Token} (eof : Token) (heof : eof.kind = .endOfFile)
    (hbody : ∀ t ∈ body, t.kind ≠ .endOfFile) :
    ∃ cs, (source (body ++ [eof])).built = [.node .compilationUnit (cs ++ [leaf eof])] ∧
      (source (body ++ [eof])).cut = false ∧
      tokensAll cs = body.map Token.stored ∧
      EveryNodeAmong FreshNode cs ∧
      ((source (body ++ [eof])).errors = [] → EveryNodeAmong FullNode cs) := by
  have hended : Ended (body ++ [eof]) := ⟨eof, by simp, heof⟩
  have hroom := room_source hended
  have hsafe := safe_source (body ++ [eof])
  unfold source
  generalize unfold (rulesPerToken * ((body ++ [eof]).length + 1)) = self at hsafe ⊢
  have hs := declarations_keeps hsafe _ hroom
  obtain ⟨taken, left, htiles, hsplit, hflush⟩ := flush_declarations heof hbody hsafe hroom
  have hunit : unit self (body ++ [eof]) =
      ⟨[.node .compilationUnit ((declarations self (body ++ [eof])).built ++
        left.map leaf ++ [leaf eof])], (declarations self (body ++ [eof])).errors, [], false⟩ := by
    simp [unit, under, all, Step.andThen, done, hflush, hs.uncut]
  rw [hunit]
  refine ⟨_, rfl, rfl, ?_, ?_, fun herr => ?_⟩
  · rw [tokensAll_append, htiles.stored, tokensAll_leaves, hsplit]
    simp
  · exact everyNodeAmong_append.2 ⟨hs.fresh, everyNodeAmong_leaves _ _⟩
  · exact everyNodeAmong_append.2 ⟨hs.full herr, everyNodeAmong_leaves _ _⟩

/-- A whole file: its declarations, the trivia behind them and the token at its end. -/
theorem unit_eq (inner : Rule → Parser) (ts : List Token) :
    (unit inner ts).errors = (declarations inner ts).errors ∧
      (unit inner ts).built = [.node .compilationUnit ((declarations inner ts).built ++
        ((flush (declarations inner ts).rest).built ++
          ((flush (declarations inner ts).rest).rest.take 1).map leaf))] := by
  constructor <;> simp [unit, under, all, Step.andThen, done, flush]

end Parse

open Tree

/-- A text is without errors if neither the lexer nor the parser has one. -/
theorem SyntaxError.sortByStart_eq_nil {errors : List SyntaxError} :
    sortByStart errors = [] ↔ errors = [] := sortBy_eq_nil

/-- The tree of a text: what it holds, and how its nodes start and end. -/
theorem parse_tree_closed (text : String) :
    ∃ cs, (parse text).1 = .node .compilationUnit (cs ++ [.token .endOfFile ""]) ∧
      tokensAll cs ++ [(.endOfFile, "")] = (lex text).1.map Token.stored ∧
      EveryNodeAmong FreshNode cs ∧
      ((parse text).2 = [] → EveryNodeAmong FullNode cs) := by
  obtain ⟨body, htokens, hbody, -⟩ := lex_tokens text
  obtain ⟨cs, hbuilt, -, hstored, hfresh, hfull⟩ :=
    Parse.source_built ⟨.endOfFile, "", text.utf8ByteSize⟩ rfl fun t ht => (hbody t ht).1
  rw [← htokens] at hbuilt hfull
  refine ⟨cs, ?_, ?_, hfresh, fun herr => hfull ?_⟩
  · show (Parse.source (lex text).1).built.headD (.node .compilationUnit []) = _
    rw [hbuilt]
    rfl
  · rw [hstored, htokens, List.map_append]
    rfl
  · have herr := SyntaxError.sortByStart_eq_nil.1 herr
    exact (List.append_eq_nil_iff.1 herr).2

/-- All that stands before the end of the file has text. -/
theorem parse_tree_solid (text : String) :
    ∃ cs, (parse text).1 = .node .compilationUnit (cs ++ [.token .endOfFile ""]) ∧
      (parse text).1.tokens = tokensAll cs ++ [(.endOfFile, "")] ∧ ∀ x ∈ tokensAll cs, x.2 ≠ "" := by
  obtain ⟨cs, htree, hstored, -⟩ := parse_tree_closed text
  obtain ⟨body, htokens, hsolid, -⟩ := lex_tokens text
  have hcs : tokensAll cs = body.map Token.stored := by
    rw [htokens, List.map_append] at hstored
    exact List.append_cancel_right hstored
  refine ⟨cs, htree, by rw [htree, Tree.tokens, tokensAll_append]; rfl, fun x hx => ?_⟩
  rw [hcs] at hx
  obtain ⟨t, ht, rfl⟩ := List.mem_map.1 hx
  exact (hsolid t ht).2

/-- The tree of a text, without telling the end of the file from other tokens. -/
theorem parse_tree (text : String) :
    ∃ cs, (parse text).1 = .node .compilationUnit cs ∧
      tokensAll cs = (lex text).1.map Token.stored ∧
      EveryNodeAmong FreshNode cs ∧
      ((parse text).2 = [] → EveryNodeAmong FullNode cs) := by
  obtain ⟨cs, htree, hstored, hfresh, hfull⟩ := parse_tree_closed text
  have hlast (P : Kind → List Tree → Prop) : EveryNodeAmong P [.token .endOfFile ""] :=
    ⟨trivial, trivial⟩
  refine ⟨_, htree, ?_, everyNodeAmong_append.2 ⟨hfresh, hlast _⟩, fun herr =>
    everyNodeAmong_append.2 ⟨hfull herr, hlast _⟩⟩
  rw [tokensAll_append, ← hstored]
  rfl

theorem lex_ended (text : String) : Parse.Ended (lex text).1 := by
  obtain ⟨body, htokens, -⟩ := lex_tokens text
  rw [htokens]
  exact ⟨_, List.mem_append_right _ List.mem_cons_self, rfl⟩

/-- The tree of a text is what its tokens are built into. -/
theorem source_eq (text : String) : (Parse.source (lex text).1).built = [(parse text).1] := by
  show _ = [(Parse.source (lex text).1).built.headD (.node .compilationUnit [])]
  unfold Parse.source
  rw [(Parse.unit_eq _ _).2]
  rfl

/-- The tokens of a tree are those of the lexer. -/
theorem parse_tokens (text : String) : (parse text).1.tokens = (lex text).1.map Token.stored := by
  obtain ⟨cs, htree, hstored, -⟩ := parse_tree text
  rw [htree, tokens, hstored]

/-- The tokens of a text without complaints read back. -/
theorem lexes_of_parse {text : String} (herr : (parse text).2 = []) {xs : Stored}
    (htokens : (parse text).1.tokens = xs ++ [(.endOfFile, "")]) : Lexer.Lexes true xs := by
  obtain ⟨hlex, -⟩ := List.append_eq_nil_iff.1 (SyntaxError.sortByStart_eq_nil.1 herr)
  obtain ⟨zs, hzs, -, hstored⟩ := Lexer.lexes_of_lex hlex
  obtain rfl : zs = xs := by
    rw [parse_tokens, hstored] at htokens
    exact List.append_cancel_right htokens
  exact hzs

/-- The end of the file is the last token, and no other is one. -/
theorem parse_ended (text : String) :
    ∃ body, (parse text).1.tokens = body ++ [(.endOfFile, "")] ∧ ∀ x ∈ body, x.1 ≠ .endOfFile := by
  obtain ⟨body, htokens, hbody, -⟩ := lex_tokens text
  refine ⟨body.map Token.stored, ?_, ?_⟩
  · rw [parse_tokens, htokens, List.map_append]
    rfl
  · simp only [List.mem_map]
    rintro x ⟨t, ht, rfl⟩
    exact (hbody t ht).1

/-- The text of a tree is the text that was parsed. -/
theorem parse_text (text : String) : (parse text).1.text = text := by
  obtain ⟨body, htokens, -, htext⟩ := lex_tokens text
  calc (parse text).1.text
      = String.join ((lex text).1.map Token.text) := by
        rw [Tree.text, parse_tokens, List.map_map]
        rfl
    _ = String.join (body.map Token.text) := by simp [htokens, String.join_append]
    _ = text := htext

theorem parse_width (text : String) : (parse text).1.width = text.utf8ByteSize := by
  rw [width_eq.1]
  exact congrArg String.utf8ByteSize (parse_text text)

/-- No bound is reached in a source file. -/
theorem source_uncut (text : String) : (Parse.source (lex text).1).cut = false := by
  obtain ⟨body, htokens, hbody, -⟩ := lex_tokens text
  obtain ⟨_, -, huncut, -⟩ := Parse.source_built
    ⟨.endOfFile, "", text.utf8ByteSize⟩ rfl fun t ht => (hbody t ht).1
  rw [htokens]
  exact huncut

/-- **Parsing is lossless.**  Whatever the text, the parser completes, and the tokens of its tree
are those of the lexer, in kind, text and order; the last one, and no other, is the end of the file,
which has no text.  So the text of the tree is the text that was parsed. -/
theorem parse_lossless (text : String) :
    Parse.Completes (lex text).1 ∧
    (parse text).1.tokens = (lex text).1.map Token.stored ∧
    (∃ body, (parse text).1.tokens = body ++ [(.endOfFile, "")] ∧
      ∀ x ∈ body, x.1 ≠ .endOfFile) ∧
    (parse text).1.text = text := by
  exact ⟨⟨source_uncut text, fun us nullable n => Parse.pastType_settled nullable us,
    fun ks n => Parse.pastTypeArguments_settled ks,
    fun ks n => Parse.pastRanks_settled ks.length n ks (Nat.le_refl _)⟩,
    parse_tokens text, parse_ended text, parse_text text⟩

end CodeMend

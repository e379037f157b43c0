import CodeMend.Proofs.Lexer.Rereading

/-!
# A text is cut to its end

`Cuts` says what a whole run of the lexer is: from a place on, the characters left are cut into
these tokens with these complaints.  It has no bound on the number of tokens; `Cuts.lexFrom_eq` says
that every sufficient bound gives the one run there is, and `cuts_lexFrom` that there is one.

What holds of all tokens of a text follows by induction on the run:

* `Cuts.abut`: the tokens stand end to end, from the first character left to the last one;
* `Cuts.split`: what follows some of the tokens is a run of its own;
* `Cuts.exists_lexeme`: a token is what was cut off at some place;
* `Cuts.fault_of_mem`: a complaint is about one token.
-/

namespace CodeMend.Lexer

open Text Tree

/-- From offset `start` on, the characters left are cut into the tokens, with the complaints; the
first says whether only blanks stand before them on their line. -/
inductive Cuts : Bool → Nat → List Char → List Token → List SyntaxError → Prop where
  | done (lineStart : Bool) (start : Nat) : Cuts lineStart start [] [⟨.endOfFile, "", start⟩] []
  | token {lineStart : Bool} {start : Nat} {c : Char} {cs rest : List Char} {t : Token}
      {ts : List Token} {es : List SyntaxError} (place : t.start = start)
      (kind : t.kind = (lexeme lineStart c cs).kind)
      (text : t.text.toList = (lexeme lineStart c cs).chars)
      (chars : t.text.toList ++ rest = c :: cs)
      (tail : Cuts (nextLineStart lineStart t.kind) t.span.stop rest ts es) :
      Cuts lineStart start (c :: cs) (t :: ts)
        (((lexeme lineStart c cs).fault.map (⟨·, t.span⟩)).toList ++ es)

variable {lineStart : Bool} {start : Nat} {cs : List Char} {ts : List Token}
  {es : List SyntaxError}

/-- What is left behind a token is shorter. -/
theorem length_rest_lt {c : Char} {cs rest : List Char}
    (h : (lexeme lineStart c cs).chars ++ rest = c :: cs) : rest.length < (c :: cs).length := by
  have hne := List.length_pos_iff.2 (lexeme_chars_ne_nil lineStart c cs)
  have hlength := congrArg List.length h
  rw [List.length_append] at hlength
  omega

/-- **Every text is cut to its end** by as many rounds as it has characters. -/
theorem cuts_lexFrom (fuel : Nat) (lineStart : Bool) (start : Nat) (cs : List Char)
    (hfuel : cs.length ≤ fuel) :
    Cuts lineStart start cs (lexFrom fuel lineStart start cs).1
      (lexFrom fuel lineStart start cs).2 := by
  induction fuel generalizing lineStart start cs with
  | zero =>
      obtain rfl : cs = [] := List.eq_nil_of_length_eq_zero (by omega)
      exact .done lineStart start
  | succ fuel ih =>
      cases cs with
      | nil => exact .done lineStart start
      | cons c cs =>
          obtain ⟨rest, hrest⟩ := lexeme_chars_isPrefix lineStart c cs
          have hlength : rest.length ≤ fuel := by
            have := length_rest_lt hrest
            omega
          have hdrop : (c :: cs).drop (lexeme lineStart c cs).chars.length = rest := by
            rw [← hrest, List.drop_left]
          simp only [lexFrom, hdrop]
          exact .token rfl rfl String.toList_ofList (by rw [String.toList_ofList, hrest])
            (ih _ _ _ hlength)

/-- **A run is what any sufficient bound gives.** -/
theorem Cuts.lexFrom_eq (h : Cuts lineStart start cs ts es) {fuel : Nat}
    (hfuel : cs.length ≤ fuel) : lexFrom fuel lineStart start cs = (ts, es) := by
  induction h generalizing fuel with
  | done lineStart start => cases fuel <;> rfl
  | @token lineStart start c cs rest t ts es place kind text chars tail ih =>
      obtain ⟨fuel, rfl⟩ : ∃ n, fuel = n + 1 := ⟨fuel - 1, by rw [List.length_cons] at hfuel; omega⟩
      have hlength : rest.length ≤ fuel := by
        have hchars : (lexeme lineStart c cs).chars ++ rest = c :: cs := text ▸ chars
        have hlt := length_rest_lt hchars
        omega
      have ht : (⟨(lexeme lineStart c cs).kind, String.ofList (lexeme lineStart c cs).chars, start⟩ :
          Token) = t := by
        rw [← kind, ← text, String.ofList_toList, ← place]
      have hdrop : (c :: cs).drop (lexeme lineStart c cs).chars.length = rest := by
        rw [← text, ← chars, List.drop_left]
      simp only [lexFrom, ht, hdrop]
      rw [← kind, ih hlength]

/-! ## Where the tokens stand -/

/-- The tokens stand end to end from the first offset to the last one. -/
def Abut : Nat → List Token → Nat → Prop
  | start, [], stop => start = stop
  | start, t :: ts, stop => t.span.start = start ∧ Abut t.span.stop ts stop

/-- Each token starts where the one before it ends, and the last one ends with the text, by
induction on the cuts. -/
theorem Cuts.abut (h : Cuts lineStart start cs ts es) :
    Abut start ts (start + (String.ofList cs).utf8ByteSize) := by
  induction h with
  | done lineStart start => exact ⟨rfl, rfl⟩
  | @token lineStart start c cs rest t ts es place kind text chars tail ih =>
      refine ⟨place, ?_⟩
      have hstop : start + (String.ofList (c :: cs)).utf8ByteSize =
          t.span.stop + (String.ofList rest).utf8ByteSize := by
        rw [← chars, String.ofList_append, String.utf8ByteSize_append, String.ofList_toList,
          ← Nat.add_assoc, ← place]
        rfl
      rw [hstop]
      exact ih

/-- **Behind some of the tokens the run goes on** with the characters behind theirs. -/
theorem Cuts.split {before after : List Token} {t : Token}
    (h : Cuts lineStart start cs (before ++ t :: after) es) :
    ∃ rest es', cs = charsOf (before.map Token.stored) ++ rest ∧
      Cuts (lineStartAfter lineStart (before.map Token.stored))
        (start + (String.ofList (charsOf (before.map Token.stored))).utf8ByteSize) rest
        (t :: after) es' := by
  induction before generalizing lineStart start cs es with
  | nil => exact ⟨cs, es, rfl, h⟩
  | cons u before ih =>
      rw [List.cons_append] at h
      generalize hmore : before ++ t :: after = more at h
      cases h with
      | done => exact absurd hmore (by simp)
      | token place kind text chars tail =>
          subst hmore
          obtain ⟨rest, es', rfl, hrest⟩ := ih tail
          refine ⟨rest, es', ?_, ?_⟩
          · rw [← chars, List.map_cons, charsOf_cons, List.append_assoc]
            rfl
          · rw [List.map_cons, charsOf_cons, String.ofList_append, String.utf8ByteSize_append,
              String.ofList_toList, ← Nat.add_assoc, ← place]
            exact hrest

/-- A token is the end of the file, or what was cut off at its place. -/
theorem Cuts.exists_lexeme (h : Cuts lineStart start cs ts es) :
    ∀ t ∈ ts, (t.kind = .endOfFile ∧ t.text = "") ∨ ∃ ls d ds,
      t.kind = (lexeme ls d ds).kind ∧ t.text.toList = (lexeme ls d ds).chars := by
  induction h with
  | done lineStart start =>
      intro t ht
      obtain rfl := List.mem_singleton.1 ht
      exact .inl ⟨rfl, rfl⟩
  | @token lineStart start c cs rest t ts es place kind text chars tail ih =>
      intro u hu
      rcases List.mem_cons.1 hu with rfl | hu
      · exact .inr ⟨lineStart, c, cs, kind, text⟩
      · exact ih u hu

/-- A complaint is about one token. -/
theorem Cuts.fault_of_mem (h : Cuts lineStart start cs ts es) :
    ∀ e ∈ es, ∃ t ∈ ts, e.span = t.span := by
  induction h with
  | done lineStart start => exact fun e he => absurd he List.not_mem_nil
  | @token lineStart start c cs rest t ts es place kind text chars tail ih =>
      intro e he
      rcases List.mem_append.1 he with he | he
      · obtain ⟨message, -, rfl⟩ := Option.map_eq_some_iff.1 (Option.mem_toList.1 he)
        exact ⟨t, List.mem_cons_self, rfl⟩
      · obtain ⟨u, hu, heq⟩ := ih e he
        exact ⟨u, List.mem_cons_of_mem t hu, heq⟩

end CodeMend.Lexer

namespace CodeMend

open Lexer

theorem cuts_lex (text : String) : Cuts true 0 text.toList (lex text).1 (lex text).2 :=
  cuts_lexFrom _ _ _ _ (Nat.le_refl _)

/-! ## Slices of a text -/

/-- The token's text is what stands between its ends in the text, and both ends are ends of
characters. -/
def Token.IsSlice (t : Token) (text : String) : Prop :=
  ∃ p q : text.Pos, p.offset.byteIdx = t.span.start ∧ q.offset.byteIdx = t.span.stop ∧
    text.extract p q = t.text

/-- A token that stands behind a front of the text, with its text next. -/
theorem Token.isSlice_of_append {t : Token} {text : String} (front back : String)
    (htext : text = front ++ t.text ++ back) (hstart : t.start = front.utf8ByteSize) :
    t.IsSlice text := by
  subst htext
  have hp : (front.rawEndPos).IsValid (front ++ t.text ++ back) :=
    String.Pos.Raw.isValid_iff_exists_append.2 ⟨front, t.text ++ back, String.append_assoc, rfl⟩
  have hq : ((front ++ t.text).rawEndPos).IsValid (front ++ t.text ++ back) :=
    String.Pos.Raw.isValid_iff_exists_append.2 ⟨front ++ t.text, back, rfl, rfl⟩
  refine ⟨⟨_, hp⟩, ⟨_, hq⟩, hstart.symm, ?_, ?_⟩
  · exact (String.utf8ByteSize_append).trans (by rw [← hstart]; rfl)
  · rw [← String.toByteArray_inj, String.toByteArray_extract, String.toByteArray_append]
    exact ByteArray.extract_append_size_left.trans (by
      rw [String.toByteArray_append]
      exact ByteArray.extract_append_eq_right rfl ByteArray.size_append)

/-- Each token is the slice of the text between its ends. -/
theorem isSlice_of_mem_lex (text : String) : ∀ t ∈ (lex text).1, t.IsSlice text := by
  intro t ht
  obtain ⟨before, after, hsplit⟩ := List.append_of_mem ht
  obtain ⟨rest, es, hchars, hrest⟩ := (hsplit ▸ cuts_lex text).split
  obtain ⟨back, rfl⟩ : ∃ back, rest = t.text.toList ++ back := by
    cases hrest with
    | done => exact ⟨[], rfl⟩
    | token place kind text chars tail => exact ⟨_, chars.symm⟩
  refine Token.isSlice_of_append (String.ofList (charsOf (before.map Token.stored)))
    (String.ofList back) ?_ (hrest.abut.1.trans (Nat.zero_add _))
  rw [← String.ofList_toList (s := text), hchars, String.ofList_append, String.ofList_append,
    String.ofList_toList, String.append_assoc]

/-- A slice stays inside the text. -/
theorem Token.IsSlice.stop_le {t : Token} {text : String} (h : t.IsSlice text) :
    t.span.stop ≤ text.utf8ByteSize := by
  obtain ⟨p, q, -, hq, -⟩ := h
  rw [← hq]
  exact q.isValid.le_rawEndPos

/-- **The lexer tiles its input.**  Any bound that is at least the number of characters gives the
same tokens, so none is ever reached.  The tokens stand end to end over all bytes of the text; each
has its text between two character boundaries of the input; all but the last have text, and the last
is the only end of file.  Each complaint is about the span of a token and lies inside the input. -/
theorem lex_tiles (text : String) :
    (∀ more, lexFrom (text.toList.length + more) true 0 text.toList = lex text) ∧
      Abut 0 (lex text).1 text.utf8ByteSize ∧
      (∀ t ∈ (lex text).1, t.IsSlice text) ∧
      (∃ body, (lex text).1 = body ++ [⟨.endOfFile, "", text.utf8ByteSize⟩] ∧
        ∀ t ∈ body, t.kind ≠ .endOfFile ∧ t.text ≠ "") ∧
      ∀ e ∈ (lex text).2, (∃ t ∈ (lex text).1, e.span = t.span) ∧
        e.span.start ≤ e.span.stop ∧ e.span.stop ≤ text.utf8ByteSize := by
  have hcuts := cuts_lex text
  refine ⟨fun more => ?_, ?_, isSlice_of_mem_lex text, ?_, fun e he => ?_⟩
  · exact hcuts.lexFrom_eq (Nat.le_add_right _ _)
  · simpa using hcuts.abut
  · obtain ⟨body, htokens, hbody, -⟩ := lex_tokens text
    exact ⟨body, htokens, hbody⟩
  · obtain ⟨t, ht, heq⟩ := hcuts.fault_of_mem e he
    refine ⟨⟨t, ht, heq⟩, ?_, ?_⟩
    · rw [heq]
      exact Nat.le_add_right _ _
    · rw [heq]
      exact (isSlice_of_mem_lex text t ht).stop_le

end CodeMend

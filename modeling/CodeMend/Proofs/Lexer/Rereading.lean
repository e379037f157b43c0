import CodeMend.Proofs.Lexer.Locality
import CodeMend.Proofs.Syntax.Nodes

/-!
# Tokens that read back

`Lexes` says of stored tokens that their text is cut into just these tokens again, without a
complaint.  What `lex` gives for a text without complaints are such tokens (`lexes_of_lex`), and the
text of such tokens gives them back (`lex_of_lexes`).
-/

namespace CodeMend.Lexer

open Tree

/-- The characters of stored tokens. -/
def charsOf (xs : Stored) : List Char := xs.flatMap (·.2.toList)

/-- No tokens have no characters. -/
@[simp] theorem charsOf_nil : charsOf [] = [] := rfl

/-- The characters of the first token, and those of the others. -/
@[simp] theorem charsOf_cons (x : Kind × String) (xs : Stored) :
    charsOf (x :: xs) = x.2.toList ++ charsOf xs := List.flatMap_cons

/-- The characters of two rows of tokens. -/
@[simp] theorem charsOf_append (xs ys : Stored) : charsOf (xs ++ ys) = charsOf xs ++ charsOf ys :=
  List.flatMap_append

/-- The characters of the text of tokens are theirs. -/
theorem toList_textOf (xs : Stored) : (textOf xs).toList = charsOf xs := by
  induction xs with
  | nil => rfl
  | cons x xs ih => rw [textOf_cons, String.toList_append, ih, charsOf_cons]

/-- Does the text of the tokens read back as these tokens, without a complaint?  The first says
whether only blanks stand before them on their line. -/
inductive Lexes : Bool → Stored → Prop where
  | nil (lineStart : Bool) : Lexes lineStart []
  | cons {lineStart : Bool} {k : Kind} {text : String} {c : Char} {cs : List Char} {xs : Stored}
      (chars : text.toList ++ charsOf xs = c :: cs)
      (front : lexeme lineStart c cs = ⟨k, text.toList, none⟩)
      (rest : Lexes (nextLineStart lineStart k) xs) : Lexes lineStart ((k, text) :: xs)

/-- What the lexer cuts without a complaint reads back, by induction on the bound of its tokens.
-/
theorem lexes_of_lexFrom {fuel : Nat} {lineStart : Bool} {start : Nat} {cs : List Char}
    (hfuel : cs.length ≤ fuel) (herr : (lexFrom fuel lineStart start cs).2 = []) :
    ∃ xs, Lexes lineStart xs ∧ charsOf xs = cs ∧
      (lexFrom fuel lineStart start cs).1.map Token.stored = xs ++ [(.endOfFile, "")] := by
  induction fuel generalizing lineStart start cs with
  | zero =>
      obtain rfl : cs = [] := List.eq_nil_of_length_eq_zero (by omega)
      exact ⟨[], .nil _, rfl, rfl⟩
  | succ fuel ih =>
      cases cs with
      | nil => exact ⟨[], .nil _, rfl, rfl⟩
      | cons c cs =>
          obtain ⟨rest, hrest⟩ := lexeme_chars_isPrefix lineStart c cs
          have hne := lexeme_chars_ne_nil lineStart c cs
          simp only [lexFrom] at herr ⊢
          generalize hl : lexeme lineStart c cs = l at hrest hne herr ⊢
          have hdrop : (c :: cs).drop l.chars.length = rest := by
            rw [← hrest, List.drop_left]
          have hlength : rest.length ≤ fuel := by
            have := congrArg List.length hrest
            have := List.length_pos_iff.2 hne
            simp only [List.length_append, List.length_cons] at *
            omega
          rw [hdrop] at herr ⊢
          obtain ⟨hfault, herr⟩ := List.append_eq_nil_iff.1 herr
          obtain ⟨xs, hxs, hchars, hstored⟩ := ih hlength herr
          have hclean : l.fault = none := by simpa using hfault
          refine ⟨(l.kind, String.ofList l.chars) :: xs, ?_, ?_, ?_⟩
          · have htext : (String.ofList l.chars).toList ++ charsOf xs = c :: cs := by
              rw [String.toList_ofList, hchars, hrest]
            exact .cons htext (by rw [hl, String.toList_ofList, ← hclean]) hxs
          · rw [charsOf_cons, String.toList_ofList, hchars, hrest]
          · rw [List.map_cons, List.cons_append, hstored]
            rfl

/-- Tokens that read back are cut from their text, from any offset and with any bound that is
enough, by induction on the tokens. -/
theorem lexFrom_of_lexes {lineStart : Bool} {xs : Stored} (h : Lexes lineStart xs) {fuel : Nat}
    (start : Nat) (hfuel : (charsOf xs).length ≤ fuel) :
    (lexFrom fuel lineStart start (charsOf xs)).1.map Token.stored = xs ++ [(.endOfFile, "")] ∧
      (lexFrom fuel lineStart start (charsOf xs)).2 = [] := by
  induction h generalizing fuel start with
  | nil lineStart => cases fuel <;> exact ⟨rfl, rfl⟩
  | @cons lineStart k text c cs xs chars front rest ih =>
      rw [charsOf_cons, chars] at hfuel ⊢
      obtain ⟨fuel, rfl⟩ : ∃ n, fuel = n + 1 := ⟨fuel - 1, by simp only [List.length_cons] at hfuel; omega⟩
      have hne := lexeme_chars_ne_nil lineStart c cs
      rw [front] at hne
      have hlength : (charsOf xs).length ≤ fuel := by
        have := congrArg List.length chars
        have := List.length_pos_iff.2 hne
        simp only [List.length_append, List.length_cons] at *
        omega
      obtain ⟨htokens, herrors⟩ := ih (start + text.utf8ByteSize) hlength
      have hdrop : (c :: cs).drop text.toList.length = charsOf xs := by
        rw [← chars, List.drop_left]
      simp only [lexFrom, front, hdrop, String.ofList_toList]
      refine ⟨?_, ?_⟩
      · exact congrArg (_ :: ·) htokens
      · exact herrors

/-- A text without complaints reads back. -/
theorem lexes_of_lex {text : String} (h : (lex text).2 = []) :
    ∃ xs, Lexes true xs ∧ textOf xs = text ∧
      (lex text).1.map Token.stored = xs ++ [(.endOfFile, "")] := by
  obtain ⟨xs, hxs, hchars, hstored⟩ := lexes_of_lexFrom (Nat.le_refl _) h
  refine ⟨xs, hxs, ?_, hstored⟩
  rw [← String.toList_inj, toList_textOf, hchars]

/-- The text of tokens that read back. -/
theorem lex_of_lexes {xs : Stored} (h : Lexes true xs) :
    (lex (textOf xs)).1.map Token.stored = xs ++ [(.endOfFile, "")] ∧ (lex (textOf xs)).2 = [] := by
  unfold lex
  rw [toList_textOf]
  exact lexFrom_of_lexes h 0 (Nat.le_refl _)

/-! ## Line breaks -/

/-- Only a line break is cut as one. -/
theorem isLineBreak_of_lexeme {lineStart : Bool} {c : Char} {cs : List Char}
    (h : (lexeme lineStart c cs).kind = .newline) : isLineBreak c = true := by
  cases hbreak : isLineBreak c with
  | true => rfl
  | false =>
      refine absurd h (lexeme_kind_ne (fun hc => ?_) rfl rfl (by decide) (by decide) lineStart cs)
      rw [hbreak] at hc
      cases hc

/-- At a character of line breaks, a line break is cut. -/
theorem lexeme_of_isLineBreak (lineStart : Bool) {c : Char} (cs : List Char)
    (h : isLineBreak c = true) : lexeme lineStart c cs = scanNewline (c :: cs) := by
  simp [lexeme, h]

/-- The three line breaks. -/
def IsBreak (text : String) : Prop :=
  text.toList = ['\n'] ∨ text.toList = ['\r', '\n'] ∨ text.toList = ['\r']

/-- What is cut as a line break is one of the three. -/
theorem isBreak_of_lexeme {lineStart : Bool} {c : Char} {cs : List Char} {text : String}
    (h : lexeme lineStart c cs = ⟨.newline, text.toList, none⟩) : IsBreak text := by
  have hc := isLineBreak_of_lexeme (congrArg Lexeme.kind h)
  rw [lexeme_of_isLineBreak lineStart cs hc] at h
  have hchars := congrArg Lexeme.chars h
  unfold scanNewline at hchars
  split at hchars
  · exact .inr (.inl hchars.symm)
  · rcases (isLineBreak_iff c).1 hc with rfl | rfl
    · exact .inl hchars.symm
    · exact .inr (.inr hchars.symm)

/-- A line break is cut off wherever it stands, unless it would join the next character. -/
theorem lexeme_of_isBreak {text : String} (h : IsBreak text) {rest : List Char}
    (hrest : text.toList = ['\r'] → rest.head? ≠ some '\n') (lineStart : Bool) :
    ∃ c cs, text.toList ++ rest = c :: cs ∧
      lexeme lineStart c cs = ⟨.newline, text.toList, none⟩ := by
  rcases h with h | h | h
  · refine ⟨'\n', rest, by rw [h]; rfl, ?_⟩
    rw [lexeme_of_isLineBreak _ _ rfl, h]
    rfl
  · refine ⟨'\r', '\n' :: rest, by rw [h]; rfl, ?_⟩
    rw [lexeme_of_isLineBreak _ _ rfl, h]
    rfl
  · refine ⟨'\r', rest, by rw [h]; rfl, ?_⟩
    rw [lexeme_of_isLineBreak _ _ rfl, h]
    cases rest with
    | nil => rfl
    | cons d rest =>
        have hd : d ≠ '\n' := fun hd => hrest h (congrArg some hd)
        simp [scanNewline, hd]

/-- A line break ends with a character that is one. -/
theorem IsBreak.ends {text : String} (h : IsBreak text) :
    ∃ x b, text.toList = x ++ [b] ∧ isLineBreak b = true := by
  rcases h with h | h | h
  · exact ⟨[], '\n', h, rfl⟩
  · exact ⟨['\r'], '\n', h, rfl⟩
  · exact ⟨[], '\r', h, rfl⟩

/-- A line break that reads back is one of the three. -/
theorem Lexes.isBreak {lineStart : Bool} {text : String} {xs : Stored}
    (h : Lexes lineStart ((.newline, text) :: xs)) : IsBreak text := by
  cases h with
  | cons chars front rest => exact isBreak_of_lexeme front

/-- Tokens that do not start with a line break do not start with a character of one. -/
theorem Lexes.head?_ne {lineStart : Bool} {xs : Stored} (h : Lexes lineStart xs)
    (hhead : ∀ x ∈ xs.head?, x.1 ≠ .newline) {b : Char} (hb : isLineBreak b = true) :
    (charsOf xs).head? ≠ some b := by
  cases h with
  | nil => simp
  | @cons _ k text c cs xs chars front rest =>
      rw [charsOf_cons, chars]
      intro hc
      obtain rfl : c = b := Option.some.inj hc
      rw [lexeme_of_isLineBreak _ _ hb] at front
      have hkind : (scanNewline (c :: cs)).kind = .newline := by
        unfold scanNewline
        split <;> rfl
      rw [front] at hkind
      exact hhead (k, text) rfl hkind

/-- The state of the line behind tokens. -/
def lineStartAfter (lineStart : Bool) (xs : Stored) : Bool :=
  xs.foldl (fun ls x => nextLineStart ls x.1) lineStart

/-- The rest of tokens that read back does so, at the state of its line. -/
theorem Lexes.of_append {lineStart : Bool} {xs ys : Stored} (h : Lexes lineStart (xs ++ ys)) :
    Lexes (lineStartAfter lineStart xs) ys := by
  induction xs generalizing lineStart with
  | nil => exact h
  | cons x xs ih =>
      cases h with
      | cons chars front rest => exact ih rest

end CodeMend.Lexer

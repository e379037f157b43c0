import CodeMend.Proofs.Parser.Snippets
import CodeMend.Semantic.Constant

/-!
# Snippets of names and numbers

An identifier of a text without complaints is a word on its own (`spelled_of_ident`), and so are the
digits of a number (`spelled_digits`).  Hence the snippet of an identifier is a name, and that of a
number is its `numeral`: a literal, with a minus before it if the number is negative
(`Snippet.expression_toString`).
-/

namespace CodeMend

open Tree Text Lexer

namespace Lexer

/-! ## Words -/

/-- No word starts with a digit. -/
theorem isWordStart_of_isDigit {c : Char} (h : c.isDigit = true) : isWordStart c = false := by
  have hrange : 48 ≤ c.toNat ∧ c.toNat ≤ 57 := by
    simpa [Char.isDigit, UInt32.le_iff_toNat_le] using h
  have halpha : c.isAlpha = false := by
    rw [← Bool.not_eq_true, isAlpha_iff]
    omega
  have hgap : (c == '_') = false := by
    refine beq_eq_false_iff_ne.2 ?_
    rintro rfl
    exact absurd hrange (by decide)
  have hascii : c.toNat < 128 := by omega
  simp [isWordStart, isLetter, hascii, halpha, hgap]

/-- A word starts where a character of one does. -/
theorem lexeme_of_isWordStart {c : Char} (hc : isWordStart c = true) (lineStart : Bool)
    (cs : List Char) : lexeme lineStart c cs = scanWord (c :: cs) := by
  have hpart : isWordPart c = true := by
    rcases Bool.or_eq_true_iff.1 hc with h | h <;> simp [isWordPart, h]
  have hblank := not_isBlank_of_isWordPart hpart
  have hne {d : Char} (hd : isWordStart d = false) : (c == d) = false := by
    refine beq_eq_false_iff_ne.2 ?_
    rintro rfl
    exact Bool.noConfusion (hc.symm.trans hd)
  have hbreak : isLineBreak c = false := by
    have hn := hne (d := '\n') (by decide)
    have hr := hne (d := '\r') (by decide)
    simp [isLineBreak, hn, hr]
  have hdigit : c.isDigit = false := by
    refine Bool.eq_false_iff.2 fun h => ?_
    rw [isWordStart_of_isDigit h] at hc
    cases hc
  unfold lexeme
  simp only [hbreak, hblank, hdigit, hc, hne (d := '#') (by decide), hne (d := '/') (by decide),
    hne (d := '.') (by decide), hne (d := '"') (by decide), hne (d := '@') (by decide),
    hne (d := '$') (by decide), hne (d := '\'') (by decide), Bool.false_and, Bool.or_false,
    Bool.false_eq_true, if_false, if_true]

/-- What is cut as one token, and nothing is left, is a word. -/
theorem spelled_of_lexeme {k : Kind} (hk : k.isTrivia = false) {c : Char} {cs : List Char}
    (h : lexeme true c cs = ⟨k, c :: cs, none⟩) : Spelled k (String.ofList (c :: cs)) := by
  have hlexes : Lexes true [(k, String.ofList (c :: cs))] :=
    .cons (show _ = c :: cs by simp) (by simpa using h) (.nil _)
  obtain ⟨htokens, herrors⟩ := lex_of_lexes hlexes
  have htext : textOf [(k, String.ofList (c :: cs))] = String.ofList (c :: cs) := by simp [textOf]
  rw [htext] at htokens herrors
  exact ⟨hk, htokens, herrors⟩

/-- An identifier is a word or a word behind an `@`. -/
theorem ident_cases {lineStart : Bool} {c : Char} {cs chars : List Char}
    (h : lexeme lineStart c cs = ⟨.ident, chars, none⟩) :
    (isWordStart c = true ∧ scanWord (c :: cs) = ⟨.ident, chars, none⟩) ∨
      (c = '@' ∧ cs.head?.any isWordStart = true ∧ chars = c :: cs.takeWhile isWordPart) := by
  revert h
  apply lexeme_cases (motive := fun l => l = ⟨.ident, chars, none⟩ →
    (isWordStart c = true ∧ scanWord (c :: cs) = ⟨.ident, chars, none⟩) ∨
      (c = '@' ∧ cs.head?.any isWordStart = true ∧ chars = c :: cs.takeWhile isWordPart))
  case newline =>
    intro _ h
    have hkind := congrArg Lexeme.kind h
    rw [scanNewline_kind] at hkind
    cases hkind
  case blanks => exact fun _ _ h => absurd (congrArg Lexeme.kind h) nofun
  case directive => exact fun _ _ h => absurd h (ne_of_significant rfl (directiveKind_isTrivia _))
  case lineComment => exact fun _ _ h => absurd h (ne_of_significant rfl (scanLineComment_isTrivia _))
  case blockComment => exact fun _ _ h => absurd (congrArg Lexeme.kind h) nofun
  case number =>
    intro _ h
    rcases scanNumber_kind (c :: cs) with hk | hk <;> cases hk.symm.trans (congrArg Lexeme.kind h)
  case string => exact fun _ _ _ h => absurd (congrArg Lexeme.kind h) nofun
  case char => exact fun _ h => absurd (congrArg Lexeme.kind h) nofun
  case word => exact fun hc h => Or.inl ⟨hc, h⟩
  case verbatimWord => exact fun hc hsecond h => Or.inr ⟨hc, hsecond, (congrArg Lexeme.chars h).symm⟩
  case punctuation =>
    intro _ _ _ h
    have hnot : ∀ p ∈ punctuation, p.2 ≠ .ident := by decide
    have hkind := congrArg Lexeme.kind h
    rcases scanPunctuation_cases c cs with ⟨p, hp, heq⟩ | herror
    · rw [heq] at hkind
      exact absurd hkind (hnot p hp)
    · cases herror.symm.trans hkind

/-- A word behind an `@` is an identifier. -/
theorem lexeme_verbatim {d : Char} (hd : isWordStart d = true) (lineStart : Bool) (ds : List Char) :
    lexeme lineStart '@' (d :: ds) = ⟨.ident, '@' :: (d :: ds).takeWhile isWordPart, none⟩ := by
  have hne {e : Char} (he : isWordStart e = false) : (some d == some e) = false := by
    refine beq_eq_false_iff_ne.2 fun h => ?_
    rw [← Option.some.inj h, hd] at he
    cases he
  have hat : isLineBreak '@' = false ∧ isBlank '@' = false ∧ ('@').isDigit = false ∧
      isWordStart '@' = false := by decide
  unfold lexeme
  simp [hat, hd, hne (e := '"') (by decide), hne (e := '@') (by decide),
    hne (e := '$') (by decide)]

/-- An identifier is a word on its own. -/
theorem spelled_of_ident {lineStart : Bool} {c : Char} {cs chars : List Char}
    (h : lexeme lineStart c cs = ⟨.ident, chars, none⟩) : Spelled .ident (String.ofList chars) := by
  rcases ident_cases h with ⟨hc, hword⟩ | ⟨rfl, hsecond, rfl⟩
  · have hpart : isWordPart c = true := by
      rcases Bool.or_eq_true_iff.1 hc with h | h <;> simp [isWordPart, h]
    have hchars : c :: cs.takeWhile isWordPart = chars := by
      rw [← List.takeWhile_cons_of_pos hpart]
      exact congrArg Lexeme.chars hword
    have hkind := congrArg Lexeme.kind hword
    rw [← hchars]
    refine spelled_of_lexeme rfl ?_
    have hself : (c :: cs.takeWhile isWordPart).takeWhile isWordPart = c :: cs.takeWhile isWordPart := by
      rw [List.takeWhile_cons_of_pos hpart, List.takeWhile_idem]
    rw [lexeme_of_isWordStart hc, scanWord, hself]
    rw [scanWord, List.takeWhile_cons_of_pos hpart] at hkind
    exact congrArg (Lexeme.mk · _ none) hkind
  · cases cs with
    | nil => cases hsecond
    | cons d ds =>
        have hd : isWordStart d = true := hsecond
        have hpart : isWordPart d = true := by
          rcases Bool.or_eq_true_iff.1 hd with h | h <;> simp [isWordPart, h]
        rw [List.takeWhile_cons_of_pos hpart]
        refine spelled_of_lexeme rfl ?_
        rw [lexeme_verbatim hd, List.takeWhile_cons_of_pos hpart, List.takeWhile_idem]

/-- A name among tokens that read back is spelled as one. -/
theorem Lexes.spelled_of_mem {lineStart : Bool} {xs : Stored} (h : Lexes lineStart xs) {name : String}
    (hmem : (.ident, name) ∈ xs) : Spelled .ident name := by
  induction h with
  | nil => cases hmem
  | @cons lineStart k text c cs xs chars front rest ih =>
      rcases List.mem_cons.1 hmem with heq | hmem
      · obtain ⟨rfl, rfl⟩ := Prod.mk.inj heq
        have hspelled := spelled_of_ident front
        rwa [String.ofList_toList] at hspelled
      · exact ih hmem

/-! ## Digits -/

/-- A number starts where a digit does. -/
theorem lexeme_of_isDigit {c : Char} (hc : c.isDigit = true) (lineStart : Bool) (cs : List Char) :
    lexeme lineStart c cs = scanNumber (c :: cs) := by
  have hblank := not_isBlank_of_isWordPart (isWordPart_of_isDigit hc)
  have hne {d : Char} (hd : d.isDigit = false) : (c == d) = false := by
    refine beq_eq_false_iff_ne.2 ?_
    rintro rfl
    exact Bool.noConfusion (hc.symm.trans hd)
  have hbreak : isLineBreak c = false := by
    simp [isLineBreak, hne (d := '\n') (by decide), hne (d := '\r') (by decide)]
  unfold lexeme
  simp only [hbreak, hblank, hc, hne (d := '#') (by decide), hne (d := '/') (by decide),
    Bool.false_and, Bool.true_or, Bool.false_eq_true, if_false, if_true]

/-- Without a letter for it, a number is not hexadecimal. -/
theorem not_startsHex {cs : List Char} (h : ∀ c ∈ cs, c ≠ 'x' ∧ c ≠ 'X') : startsHex cs = false := by
  unfold startsHex
  split
  · next x _ =>
    obtain ⟨hlower, hupper⟩ := h x (by simp)
    rw [beq_eq_false_iff_ne.2 hlower, beq_eq_false_iff_ne.2 hupper]
    rfl
  · rfl

/-- Digits are cut as one number. -/
theorem lexeme_digits {c : Char} {cs : List Char} (h : ∀ d ∈ c :: cs, d.isDigit = true)
    (lineStart : Bool) : lexeme lineStart c cs = ⟨.intLiteral, c :: cs, none⟩ := by
  obtain ⟨hc, hcs⟩ := List.forall_mem_cons.1 h
  have hwhole : (c :: cs).takeWhile isDigitOrGap = c :: cs := by
    rw [List.takeWhile_eq_self_iff]
    intro d hd
    simp [isDigitOrGap, h d hd]
  have hhex : startsHex (c :: cs) = false := by
    refine not_startsHex fun d hd => ⟨?_, ?_⟩
    all_goals
      rintro rfl
      exact Bool.noConfusion (h _ hd)
  rw [lexeme_of_isDigit hc, scanNumber, if_neg (by rw [hhex]; exact Bool.false_ne_true)]
  simp [hwhole, scanFraction, scanExponent]

/-- A natural number is written with digits, at least one. -/
theorem digits_repr (n : Nat) : ∃ c cs, (toString n).toList = c :: cs ∧
    ∀ d ∈ c :: cs, d.isDigit = true := by
  have hdigits : (toString n).toList = Nat.toDigits 10 n := by
    rw [Nat.toString_eq_ofList_toDigits, String.toList_ofList]
  cases hlist : Nat.toDigits 10 n with
  | nil => exact absurd hlist Nat.toDigits_ne_nil
  | cons c cs =>
      refine ⟨c, cs, hdigits.trans hlist, fun d hd => ?_⟩
      exact Nat.isDigit_of_mem_toDigits (by decide) (by decide) (hlist ▸ hd)

/-- The digits of a number are a word. -/
theorem spelled_digits (n : Nat) : Spelled .intLiteral (toString n) := by
  obtain ⟨c, cs, hlist, hdigits⟩ := digits_repr n
  have hspelled := spelled_of_lexeme rfl (lexeme_digits hdigits true)
  rwa [← hlist, String.ofList_toList] at hspelled

theorem Spelled.size_pos {k : Kind} {text : String} (h : Spelled k text) : 0 < text.utf8ByteSize := by
  obtain ⟨c, cs, hlist, -⟩ := h.lexeme
  refine Nat.pos_of_ne_zero fun hzero => ?_
  rw [String.utf8ByteSize_eq_zero_iff.1 hzero] at hlist
  cases hlist

end Lexer

/-- An identifier of a text without complaints is a word on its own. -/
theorem parse_spelled {text name : String} (herr : (parse text).2 = [])
    (hname : (.ident, name) ∈ (parse text).1.tokens) : Spelled .ident name := by
  obtain ⟨xs, hlexes, -, hstored⟩ := lexes_of_lex
    (List.append_eq_nil_iff.1 (SyntaxError.sortByStart_eq_nil.1 herr)).1
  rw [parse_tokens, hstored] at hname
  rcases List.mem_append.1 hname with hname | hname
  · exact hlexes.spelled_of_mem hname
  · simp at hname

/-! ## Values of literals -/

namespace Constant

theorem digit_of_isDigit {c : Char} (h : c.isDigit = true) :
    digit? 10 c = some (c.toNat - '0'.toNat) := by
  have hrange : 48 ≤ c.toNat ∧ c.toNat ≤ 57 := by
    simpa [Char.isDigit, UInt32.le_iff_toNat_le] using h
  have hlt : c.toNat - 48 < 10 := by omega
  simp [digit?, h, hlt]

/-- Reading digits one by one gives the number that they write. -/
theorem foldlM_digits {cs : List Char} (h : ∀ c ∈ cs, c.isDigit = true) (n : Nat) :
    cs.foldlM (fun n c => (digit? 10 c).map (10 * n + ·)) n = some (Nat.ofDigitChars 10 cs n) := by
  induction cs generalizing n with
  | nil => rfl
  | cons c cs ih =>
      obtain ⟨hc, hcs⟩ := List.forall_mem_cons.1 h
      rw [List.foldlM_cons, digit_of_isDigit hc, Nat.ofDigitChars_cons]
      exact ih hcs _

/-- The value of decimal digits. -/
theorem readInt_toString (n : Nat) : readInt? (toString n) = checked n := by
  obtain ⟨c, cs, hlist, hdigits⟩ := digits_repr n
  have hnot {d : Char} (hd : d ∈ c :: cs) {e : Char} (he : e.isDigit = false) : (d == e) = false := by
    refine beq_eq_false_iff_ne.2 ?_
    rintro rfl
    exact Bool.noConfusion ((hdigits _ hd).symm.trans he)
  have hsuffix : ((c :: cs).reverse.dropWhile isIntSuffix).reverse = c :: cs := by
    cases hreverse : (c :: cs).reverse with
    | nil => simp at hreverse
    | cons d ds =>
        have hd : d ∈ c :: cs := List.mem_reverse.1 (hreverse ▸ List.mem_cons_self)
        have hletter : isIntSuffix d = false := by
          simp [isIntSuffix, hnot hd (e := 'u') (by decide), hnot hd (e := 'U') (by decide),
            hnot hd (e := 'l') (by decide), hnot hd (e := 'L') (by decide)]
        rw [List.dropWhile_cons_of_neg (by rw [hletter]; nofun), ← hreverse, List.reverse_reverse]
  have hgaps : (c :: cs).filter (· != '_') = c :: cs := by
    refine List.filter_eq_self.2 fun d hd => ?_
    simp [bne, hnot hd (e := '_') (by decide)]
  have hvalue : digits? 10 (c :: cs) = some n := by
    have hfold : Nat.ofDigitChars 10 (c :: cs) 0 = n := by
      have hall := Nat.ofDigitChars_toDigits (b := 10) (n := n) (by decide) (by decide)
      rwa [← String.toList_ofList (l := Nat.toDigits 10 n), ← Nat.toString_eq_ofList_toDigits, hlist]
        at hall
    have hsign : '+' ∉ c :: cs := fun hmem => Bool.noConfusion (hdigits _ hmem)
    rw [digits?, unsigned_eq_self hsign, if_neg (by simp), foldlM_digits hdigits, hfold]
  unfold readInt?
  rw [hlist]
  dsimp only
  rw [hsuffix, hgaps]
  -- none of the marks of another base is a digit
  have hmark {d e : Char} {ds : List Char} (hds : c :: cs = d :: e :: ds) (he : e.isDigit = false) :
      False := by
    have hmem : e ∈ c :: cs := by
      rw [hds]
      simp
    rw [hdigits e hmem] at he
    cases he
  split
  · next heq => exact (hmark heq (by decide)).elim
  · next heq => exact (hmark heq (by decide)).elim
  · next heq => exact (hmark heq (by decide)).elim
  · next heq => exact (hmark heq (by decide)).elim
  · rw [hvalue]
    rfl

end Constant

/-! ## Snippets -/

/-- A number as it is written. -/
def numeral : Int → Tree
  | .ofNat n => .node .literalExpression [.token .intLiteral (toString n)]
  | .negSucc n => .node .prefixUnaryExpression
      [.token .minus "-", .node .literalExpression [.token .intLiteral (toString (n + 1))]]

theorem text_numeral (n : Int) : (numeral n).text = toString n := by
  cases n with
  | ofNat n => rfl
  | negSucc n => rfl

/-- A numeral has text. -/
theorem width_numeral_pos (n : Int) : 0 < (numeral n).width := by
  cases n with
  | ofNat n => exact Nat.lt_add_right 0 (Nat.lt_add_right 0 (spelled_digits n).size_pos)
  | negSucc n => exact Nat.lt_add_right 0 (Nat.lt_add_right _ (by decide))

namespace Snippet

open Parse Expression

/-- The snippet of an identifier is a name. -/
theorem identifierName_eq {name : String} (h : Spelled .ident name) :
    identifierName name = some (.node .identifierName [.token .ident name]) := by
  have hfits := fits (.name ⟨name, h⟩)
  have htext : (Expression.tree (leaves spaced) (.name ⟨name, h⟩)).text = name := by
    simp [Expression.tree, Tree.text, tokens, tokensAll]
  have hexpression := hfits.expression_eq
  rw [htext] at hexpression
  rw [identifierName, hexpression]
  rfl

/-- A minus sign before a digit is one token. -/
theorem lexeme_minus {c : Char} (hc : c.isDigit = true) (cs : List Char) :
    lexeme false '-' (c :: cs) = ⟨.minus, ['-'], none⟩ := by
  have hne {d : Char} (hd : d.isDigit = false) : d ≠ c := by
    rintro rfl
    exact Bool.noConfusion (hc.symm.trans hd)
  have hminus : isLineBreak '-' = false ∧ isBlank '-' = false ∧ ('-').isDigit = false ∧
      isWordStart '-' = false := by decide
  unfold lexeme
  simp [hminus, scanPunctuation, punctuation, hne (d := '-') (by decide),
    hne (d := '=') (by decide), hne (d := '>') (by decide)]

/-- The tree of every number is read as an expression, with a sign in front if it is negative.
-/
theorem fits_numeral (n : Int) : Fits (numeral n) := by
  cases n with
  | ofNat n =>
      exact fits (.literal (k := .intLiteral) (Or.inl rfl) ⟨toString n, spelled_digits n⟩)
  | negSucc n =>
      have hreads := readable lead_nil (.signed ⟨.minus, by decide⟩
        (.literal (k := .intLiteral) (Or.inl rfl) ⟨toString (n + 1), spelled_digits (n + 1)⟩))
      obtain ⟨c, cs, hlist, hdigits⟩ := digits_repr (n + 1)
      have hdigit := (List.forall_mem_cons.1 hdigits).1
      have hchars : charsOf (numeral (.negSucc n)).tokens = '-' :: c :: cs := by
        rw [← hlist]
        exact congrArg ('-' :: ·) (List.append_nil _)
      have hhead : ∃ d ds, charsOf (numeral (.negSucc n)).tokens = d :: ds ∧ isBlank d = false :=
        ⟨'-', c :: cs, hchars, by decide⟩
      refine ⟨hreads.whole, ⟨_, _, rfl, rfl⟩, hhead, ?_, fun {rest} hrest hstop => ?_⟩
      · rw [hchars]
        exact .cons (by decide) (.of_all (fun _ h => not_isBlank_of_isWordPart (isWordPart_of_isDigit h)) hdigits)
      · have hnumber : Lexes false ((.intLiteral, toString (n + 1)) :: rest) :=
          (Tidy.word (spelled_digits (n + 1))).lexes hrest hstop
        refine .cons (show _ = '-' :: charsOf ((.intLiteral, toString (n + 1)) :: rest) from rfl)
          ?_ hnumber
        rw [charsOf_cons, hlist]
        exact lexeme_minus hdigit _

/-- **The snippet of a number is its numeral.** -/
theorem expression_toString (n : Int) : expression (toString n) = some (numeral n) := by
  rw [← text_numeral]
  exact (fits_numeral n).expression_eq

end Snippet

end CodeMend

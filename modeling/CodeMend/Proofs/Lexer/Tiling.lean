import CodeMend.Syntax.Lexer

/-!
# The tokens tile the text

Every `scan…` function returns a stretch at the front of what it was given, and never an empty one.
So the token texts concatenate to the input, the bound on the number of tokens is never reached,
and the only end of file is the empty token at the end.

* `lexeme_chars_isPrefix`, `lexeme_chars_ne_nil`: one token takes a nonempty stretch off the front;
* `lexFrom_tokens`: the run lemma, over any start and any sufficient bound;
* `lex_tokens`: the whole text.
-/

namespace CodeMend.Lexer

open Text

/-! ## One token -/

/-- A stretch that is taken after `n` characters continues them to a stretch of the whole. -/
theorem take_append_isPrefix {n : Nat} {cs taken : List Char} (h : taken <+: cs.drop n) :
    cs.take n ++ taken <+: cs := by
  obtain ⟨rest, hrest⟩ := h
  exact ⟨rest, by rw [List.append_assoc, hrest, List.take_append_drop]⟩

/-- A stretch that continues a first stretch of the same text. -/
theorem append_isPrefix {first cs taken : List Char} (hfirst : first <+: cs)
    (h : taken <+: cs.drop first.length) : first ++ taken <+: cs := by
  have htake : cs.take first.length = first := (List.prefix_iff_eq_take.1 hfirst).symm
  simpa only [htake] using take_append_isPrefix h

/-- What a block comment takes stands at the front. -/
theorem scanComment_isPrefix (cs : List Char) : (scanComment cs).1 <+: cs := by
  fun_induction scanComment cs with
  | case1 rest => exact ⟨rest, rfl⟩
  | case2 c cs _ taken closed hscan ih =>
      rw [hscan] at ih
      exact (List.prefix_cons_inj c).2 ih
  | case3 => exact List.prefix_rfl

/-- What a quoted literal takes stands at the front. -/
theorem scanQuoted_isPrefix (quote : Char) (cs : List Char) : (scanQuoted quote cs).1 <+: cs := by
  fun_induction scanQuoted quote cs with
  | case1 => exact List.prefix_rfl
  | case2 c cs taken closed hscan ih =>
      rw [hscan] at ih
      exact (List.prefix_cons_inj _).2 ((List.prefix_cons_inj c).2 ih)
  | case3 c cs _ hquote => exact ⟨cs, rfl⟩
  | case4 c cs _ hquote hbreak => exact List.nil_prefix
  | case5 c cs _ hquote hbreak taken closed hscan ih =>
      rw [hscan] at ih
      exact (List.prefix_cons_inj c).2 ih

/-- What a verbatim string takes stands at the front. -/
theorem scanVerbatim_isPrefix (cs : List Char) : (scanVerbatim cs).1 <+: cs := by
  fun_induction scanVerbatim cs with
  | case1 => exact List.prefix_rfl
  | case2 cs taken closed hscan ih =>
      rw [hscan] at ih
      exact (List.prefix_cons_inj _).2 ((List.prefix_cons_inj _).2 ih)
  | case3 cs _ => exact ⟨cs, rfl⟩
  | case4 c cs _ _ taken closed hscan ih =>
      rw [hscan] at ih
      exact (List.prefix_cons_inj c).2 ih

/-- A string with its opening marks stands at the front. -/
theorem scanString_isPrefix (opening : Nat) (verbatim : Bool) (cs : List Char) :
    (scanString opening verbatim cs).chars <+: cs := by
  cases verbatim with
  | false => exact take_append_isPrefix (scanQuoted_isPrefix '"' _)
  | true => exact take_append_isPrefix (scanVerbatim_isPrefix _)

/-- A fraction stands at the front. -/
theorem scanFraction_isPrefix (cs : List Char) : scanFraction cs <+: cs := by
  unfold scanFraction
  split
  · split
    · exact (List.prefix_cons_inj _).2 (List.takeWhile_prefix _)
    · exact List.nil_prefix
  · exact List.nil_prefix

/-- A sign stands at the front. -/
theorem scanSign_isPrefix (cs : List Char) : scanSign cs <+: cs := by
  cases cs with
  | nil => exact List.prefix_rfl
  | cons s rest =>
      by_cases hsign : (s == '+' || s == '-') = true
      · exact ⟨rest, by simp [scanSign, hsign]⟩
      · simp [scanSign, hsign]

/-- An exponent stands at the front. -/
theorem scanExponent_isPrefix (cs : List Char) : scanExponent cs <+: cs := by
  cases cs with
  | nil => exact List.prefix_rfl
  | cons e cs =>
      simp only [scanExponent]
      split
      · split
        · exact List.nil_prefix
        · exact (List.prefix_cons_inj e).2
            (append_isPrefix (scanSign_isPrefix cs) (List.takeWhile_prefix _))
      · exact List.nil_prefix

/-- A number stands at the front: its parts continue each other. -/
theorem scanNumber_isPrefix (cs : List Char) : (scanNumber cs).chars <+: cs := by
  unfold scanNumber
  split
  · rename_i hhex
    have hlength : (cs.take 2).length = 2 := by
      unfold startsHex at hhex
      split at hhex
      · simp
      · simp at hhex
    have hdigits := take_append_isPrefix (n := 2)
      (List.takeWhile_prefix (fun c => isHexDigit c || c == '_') (l := cs.drop 2))
    refine append_isPrefix hdigits ?_
    rw [List.length_append, hlength]
    exact List.takeWhile_prefix _
  · refine append_isPrefix (append_isPrefix (append_isPrefix ?_ ?_) ?_) ?_
    · exact List.takeWhile_prefix _
    · exact scanFraction_isPrefix _
    · exact scanExponent_isPrefix _
    · exact List.takeWhile_prefix _

/-- A line break stands at the front. -/
theorem scanNewline_isPrefix (cs : List Char) : (scanNewline cs).chars <+: cs := by
  unfold scanNewline
  split
  · rename_i rest
    exact ⟨rest, rfl⟩
  · exact List.take_prefix 1 _

/-- A mark stands at the front, or the one character that is none. -/
theorem scanPunctuation_isPrefix (c : Char) (cs : List Char) :
    (scanPunctuation c cs).chars <+: c :: cs := by
  unfold scanPunctuation
  split
  · rename_i chars kind hfind
    have hprefix := List.find?_some hfind
    exact List.isPrefixOf_iff_prefix.1 hprefix
  · exact ⟨cs, rfl⟩

/-- A stretch of characters of one class is not empty if the first one is in the class. -/
theorem takeWhile_cons_ne_nil {p : Char → Bool} {c : Char} (cs : List Char) (h : p c = true) :
    (c :: cs).takeWhile p ≠ [] := by
  rw [List.takeWhile_cons_of_pos h]
  exact List.cons_ne_nil _ _

/-- A number has a character, its first digit or its dot. -/
theorem scanNumber_ne_nil {c : Char} {cs : List Char}
    (h : (c.isDigit || (c == '.' && cs.head?.any Char.isDigit)) = true) :
    (scanNumber (c :: cs)).chars ≠ [] := by
  unfold scanNumber
  split
  · simp
  · rcases Bool.or_eq_true_iff.1 h with hdigit | hpoint
    · have hwhole := takeWhile_cons_ne_nil (p := isDigitOrGap) cs
        (by simp [isDigitOrGap, hdigit] : isDigitOrGap c = true)
      simp [hwhole]
    · obtain ⟨hpoint, hsecond⟩ := Bool.and_eq_true_iff.1 hpoint
      have hc : c = '.' := by simpa using hpoint
      subst hc
      cases cs with
      | nil => simp at hsecond
      | cons d rest =>
          have hdigit : d.isDigit = true := by simpa using hsecond
          have hgap : isDigitOrGap '.' = false := by decide
          simp [List.takeWhile_cons, hgap, scanFraction, hdigit]

/-- Every mark has a character. -/
theorem punctuation_ne_nil : ∀ p ∈ punctuation, p.1 ≠ [] := by decide

/-- A mark, or the one character that is none, has a character. -/
theorem scanPunctuation_ne_nil (c : Char) (cs : List Char) :
    (scanPunctuation c cs).chars ≠ [] := by
  unfold scanPunctuation
  split
  · rename_i chars kind hfind
    exact punctuation_ne_nil _ (List.mem_of_find?_eq_some hfind)
  · exact List.cons_ne_nil _ _

/-- How a string opens: the number of characters up to its quote, whether it is verbatim, and the
text it stands in front of. -/
inductive Opens : Nat → Bool → List Char → Prop where
  | plain (cs : List Char) : Opens 1 false ('"' :: cs)
  | verbatim (cs : List Char) : Opens 2 true ('@' :: '"' :: cs)
  | interpolated (cs : List Char) : Opens 2 false ('$' :: '"' :: cs)
  | marked {a b : Char} (first : a = '$' ∨ a = '@') (second : b = '@' ∨ b = '$') (cs : List Char) :
      Opens 3 true (a :: b :: '"' :: cs)

/-- **What a token can be.**  To show something of the token at the front of a text it is enough to
show it of each scanner under the conditions in which it is chosen. -/
theorem lexeme_cases {motive : Lexeme → Prop} {lineStart : Bool} {c : Char} {cs : List Char}
    (newline : isLineBreak c = true → motive (scanNewline (c :: cs)))
    (blanks : isLineBreak c = false → isBlank c = true →
      motive ⟨.whitespace, (c :: cs).takeWhile (fun d => isBlank d && !isLineBreak d), none⟩)
    (directive : c = '#' → lineStart = true → motive (scanDirective (c :: cs)))
    (lineComment : c = '/' → cs.head? = some '/' → motive (scanLineComment (c :: cs)))
    (blockComment : c = '/' → cs.head? = some '*' → motive (scanBlockComment (c :: cs)))
    (number : (c.isDigit || (c == '.' && cs.head?.any Char.isDigit)) = true →
      motive (scanNumber (c :: cs)))
    (string : ∀ opening verbatim, Opens opening verbatim (c :: cs) →
      motive (scanString opening verbatim (c :: cs)))
    (char : c = '\'' → motive (scanChar (c :: cs)))
    (word : isWordStart c = true → motive (scanWord (c :: cs)))
    (verbatimWord : c = '@' → cs.head?.any isWordStart = true →
      motive ⟨.ident, c :: cs.takeWhile isWordPart, none⟩)
    (punctuation : isLineBreak c = false → isBlank c = false → (c = '#' → lineStart = false) →
      motive (scanPunctuation c cs)) :
    motive (lexeme lineStart c cs) := by
  refine iteInduction (motive := motive) newline fun hbreak => ?_
  have hbreak : isLineBreak c = false := Bool.eq_false_iff.2 hbreak
  refine iteInduction (motive := motive) (blanks hbreak) fun hblank => ?_
  have hblank : isBlank c = false := Bool.eq_false_iff.2 hblank
  refine iteInduction (motive := motive) (fun h => ?_) fun hhash => ?_
  · obtain ⟨hc, hstart⟩ := Bool.and_eq_true_iff.1 h
    exact directive (beq_iff_eq.1 hc) hstart
  refine iteInduction (motive := motive) (fun h => ?_) fun _ => ?_
  · obtain ⟨hc, hsecond⟩ := Bool.and_eq_true_iff.1 h
    exact lineComment (beq_iff_eq.1 hc) (beq_iff_eq.1 hsecond)
  refine iteInduction (motive := motive) (fun h => ?_) fun _ => ?_
  · obtain ⟨hc, hsecond⟩ := Bool.and_eq_true_iff.1 h
    exact blockComment (beq_iff_eq.1 hc) (beq_iff_eq.1 hsecond)
  refine iteInduction (motive := motive) number fun _ => ?_
  refine iteInduction (motive := motive) (fun h => ?_) fun _ => ?_
  · exact string 1 false (by rw [beq_iff_eq.1 h]; exact .plain cs)
  refine iteInduction (motive := motive) (fun h => ?_) fun _ => ?_
  · obtain ⟨hc, hsecond⟩ := Bool.and_eq_true_iff.1 h
    obtain ⟨cs, rfl⟩ := List.head?_eq_some_iff.1 (beq_iff_eq.1 hsecond)
    exact string 2 true (by rw [beq_iff_eq.1 hc]; exact .verbatim cs)
  refine iteInduction (motive := motive) (fun h => ?_) fun _ => ?_
  · obtain ⟨hc, hsecond⟩ := Bool.and_eq_true_iff.1 h
    obtain ⟨cs, rfl⟩ := List.head?_eq_some_iff.1 (beq_iff_eq.1 hsecond)
    exact string 2 false (by rw [beq_iff_eq.1 hc]; exact .interpolated cs)
  refine iteInduction (motive := motive) (fun h => ?_) fun _ => ?_
  · obtain ⟨h, hthird⟩ := Bool.and_eq_true_iff.1 h
    obtain ⟨hc, hsecond⟩ := Bool.and_eq_true_iff.1 h
    have hc : c = '$' ∨ c = '@' := by simpa using hc
    cases cs with
    | nil => simp at hsecond
    | cons d cs =>
        obtain ⟨cs, rfl⟩ := List.head?_eq_some_iff.1 (beq_iff_eq.1 hthird)
        exact string 3 true (.marked hc (by simpa using hsecond) cs)
  refine iteInduction (motive := motive) (fun h => char (beq_iff_eq.1 h)) fun _ => ?_
  refine iteInduction (motive := motive) word fun _ => ?_
  refine iteInduction (motive := motive) (fun h => ?_) fun _ => ?_
  · obtain ⟨hc, hsecond⟩ := Bool.and_eq_true_iff.1 h
    exact verbatimWord (beq_iff_eq.1 hc) hsecond
  · refine punctuation hbreak hblank fun hc => ?_
    cases lineStart with
    | false => rfl
    | true => exact absurd (by rw [hc]; rfl) hhash

/-- A token is a stretch at the front of the text. -/
theorem lexeme_chars_isPrefix (lineStart : Bool) (c : Char) (cs : List Char) :
    (lexeme lineStart c cs).chars <+: c :: cs := by
  apply lexeme_cases (motive := fun l => l.chars <+: c :: cs)
  case newline => exact fun _ => scanNewline_isPrefix _
  case blanks => exact fun _ _ => List.takeWhile_prefix _
  case directive => exact fun _ _ => List.takeWhile_prefix _
  case lineComment => exact fun _ _ => List.takeWhile_prefix _
  case blockComment => exact fun _ _ => take_append_isPrefix (scanComment_isPrefix _)
  case number => exact fun _ => scanNumber_isPrefix _
  case string => exact fun opening verbatim _ => scanString_isPrefix opening verbatim _
  case char => exact fun _ => take_append_isPrefix (scanQuoted_isPrefix '\'' _)
  case word => exact fun _ => List.takeWhile_prefix _
  case verbatimWord => exact fun _ _ => (List.prefix_cons_inj c).2 (List.takeWhile_prefix _)
  case punctuation => exact fun _ _ _ => scanPunctuation_isPrefix c cs

/-- A token has a character. -/
theorem lexeme_chars_ne_nil (lineStart : Bool) (c : Char) (cs : List Char) :
    (lexeme lineStart c cs).chars ≠ [] := by
  apply lexeme_cases (motive := fun l => l.chars ≠ [])
  case newline =>
    intro _
    unfold scanNewline
    split <;> simp
  case blanks =>
    intro hbreak hblank
    exact takeWhile_cons_ne_nil (p := fun d => isBlank d && !isLineBreak d) _
      (by rw [hblank, hbreak]; rfl)
  case directive =>
    rintro rfl _
    exact takeWhile_cons_ne_nil (p := fun d => !isLineBreak d) (c := '#') _ (by decide)
  case lineComment =>
    rintro rfl _
    exact takeWhile_cons_ne_nil (p := fun d => !isLineBreak d) (c := '/') _ (by decide)
  case blockComment => simp [scanBlockComment]
  case number => exact fun h => scanNumber_ne_nil h
  case string =>
    intro opening verbatim hopens
    cases hopens <;> simp [scanString]
  case char => simp [scanChar]
  case word =>
    intro hword
    exact takeWhile_cons_ne_nil _ (by
      rcases Bool.or_eq_true_iff.1 hword with h | h <;> simp [isWordPart, h])
  case verbatimWord => simp
  case punctuation => exact fun _ _ _ => scanPunctuation_ne_nil c cs

/-! ## The kind of a token -/

/-- A line break is a token of its own kind. -/
theorem scanNewline_kind (cs : List Char) : (scanNewline cs).kind = .newline := by
  unfold scanNewline
  split <;> rfl

/-- Every word makes a directive, known or not. -/
theorem directiveKind_isDirective (line : List Char) : (directiveKind line).isDirective = true := by
  unfold directiveKind
  split <;> rfl

/-- A line comment is documentation or not. -/
theorem scanLineComment_kind (cs : List Char) :
    (scanLineComment cs).kind = .docComment ∨ (scanLineComment cs).kind = .lineComment := by
  dsimp only [scanLineComment]
  split
  · exact .inl rfl
  · exact .inr rfl

/-- A number is an integer or a real one. -/
theorem scanNumber_kind (cs : List Char) :
    (scanNumber cs).kind = .intLiteral ∨ (scanNumber cs).kind = .realLiteral := by
  unfold scanNumber
  split
  · exact .inl rfl
  · dsimp only
    split
    · exact .inr rfl
    · exact .inl rfl

/-- A reserved word is a keyword. -/
theorem isKeyword_of_keyword? {word : String} {k : Kind} (h : keyword? word = some k) :
    k.isKeyword = true := by
  unfold keyword? at h
  split at h <;> cases h <;> rfl

/-- Any other word is an identifier. -/
theorem scanWord_kind (cs : List Char) :
    (scanWord cs).kind = .ident ∨ (scanWord cs).kind.isKeyword = true := by
  dsimp only [scanWord]
  cases hword : keyword? (String.ofList (cs.takeWhile isWordPart)) with
  | none => exact .inl rfl
  | some k => exact .inr (isKeyword_of_keyword? hword)

/-- A mark is one of the known ones, or an error. -/
theorem scanPunctuation_cases (c : Char) (cs : List Char) :
    (∃ p ∈ punctuation, scanPunctuation c cs = ⟨p.2, p.1, none⟩) ∨
      (scanPunctuation c cs).kind = .errorToken := by
  unfold scanPunctuation
  split
  · next hfind => exact .inl ⟨_, List.mem_of_find?_eq_some hfind, rfl⟩
  · exact .inr rfl

/-- A kind is none of a class that it is not in. -/
theorem ne_of_class {p : Kind → Bool} {l k : Kind} (hl : p l = true) (hk : p k = false) : l ≠ k := by
  rintro rfl
  rw [hl] at hk
  cases hk

/-- The kinds of tokens other than line breaks, directives, keywords and punctuation. -/
def otherKinds : List Kind :=
  [.whitespace, .lineComment, .docComment, .blockComment, .intLiteral, .realLiteral, .stringLiteral,
    .charLiteral, .ident, .errorToken]

/-- A kind that no other scanner gives is the kind of punctuation. -/
theorem lexeme_eq_scanPunctuation {k : Kind} {c : Char}
    (hnewline : isLineBreak c = true → k ≠ .newline) (hdirective : k.isDirective = false)
    (hkeyword : k.isKeyword = false) (hother : k ∉ otherKinds)
    {lineStart : Bool} {cs : List Char} (h : (lexeme lineStart c cs).kind = k) :
    lexeme lineStart c cs = scanPunctuation c cs := by
  have other (l : Kind) (hl : l ∈ otherKinds) : l ≠ k := fun h => hother (h ▸ hl)
  revert h
  apply lexeme_cases (motive := fun l => l.kind = k → l = scanPunctuation c cs)
  case newline =>
    intro hbreak h
    exact absurd (h.symm.trans (scanNewline_kind _)) (hnewline hbreak)
  case blanks => exact fun _ _ h => absurd h (other .whitespace (by decide))
  case directive =>
    exact fun _ _ h => absurd h (ne_of_class (directiveKind_isDirective _) hdirective)
  case lineComment =>
    intro _ _ h
    rcases scanLineComment_kind (c :: cs) with hk | hk
    · exact absurd (hk.symm.trans h) (other .docComment (by decide))
    · exact absurd (hk.symm.trans h) (other .lineComment (by decide))
  case blockComment => exact fun _ _ h => absurd h (other .blockComment (by decide))
  case number =>
    intro _ h
    rcases scanNumber_kind (c :: cs) with hk | hk
    · exact absurd (hk.symm.trans h) (other .intLiteral (by decide))
    · exact absurd (hk.symm.trans h) (other .realLiteral (by decide))
  case string => exact fun _ _ _ h => absurd h (other .stringLiteral (by decide))
  case char => exact fun _ h => absurd h (other .charLiteral (by decide))
  case word =>
    intro _ h
    rcases scanWord_kind (c :: cs) with hk | hk
    · exact absurd (hk.symm.trans h) (other .ident (by decide))
    · exact absurd h (ne_of_class hk hkeyword)
  case verbatimWord => exact fun _ _ h => absurd h (other .ident (by decide))
  case punctuation => exact fun _ _ _ _ => rfl

/-- A kind that no scanner gives is not the kind of a token. -/
theorem lexeme_kind_ne {k : Kind} {c : Char} (hnewline : isLineBreak c = true → k ≠ .newline)
    (hdirective : k.isDirective = false) (hkeyword : k.isKeyword = false)
    (hpunctuation : ∀ p ∈ punctuation, p.2 ≠ k) (hother : k ∉ otherKinds)
    (lineStart : Bool) (cs : List Char) : (lexeme lineStart c cs).kind ≠ k := by
  intro h
  rw [lexeme_eq_scanPunctuation hnewline hdirective hkeyword hother h] at h
  rcases scanPunctuation_cases c cs with ⟨p, hp, heq⟩ | herror
  · exact hpunctuation p hp (by rw [← h, heq])
  · exact hother (h ▸ herror ▸ (by decide : Kind.errorToken ∈ otherKinds))

/-- A token with text is not the end of the file. -/
theorem lexeme_kind_ne_endOfFile (lineStart : Bool) (c : Char) (cs : List Char) :
    (lexeme lineStart c cs).kind ≠ .endOfFile :=
  lexeme_kind_ne (k := .endOfFile) (fun _ => nofun) rfl rfl (by decide) (by decide) lineStart cs

/-! ## All tokens -/

/-- **The run lemma.**  From any offset on, with a bound that is at least the number of characters
left, the tokens are tokens with text that concatenate to the characters left, followed by the end
of the file behind the last character. -/
theorem lexFrom_tokens (fuel : Nat) (lineStart : Bool) (start : Nat) (cs : List Char)
    (hfuel : cs.length ≤ fuel) :
    ∃ body : List Token,
      (lexFrom fuel lineStart start cs).1 =
        body ++ [⟨.endOfFile, "", start + (String.ofList cs).utf8ByteSize⟩] ∧
      (∀ t ∈ body, t.kind ≠ .endOfFile ∧ t.text ≠ "") ∧
      String.join (body.map Token.text) = String.ofList cs := by
  induction fuel generalizing lineStart start cs with
  | zero =>
      obtain rfl : cs = [] := List.eq_nil_of_length_eq_zero (by omega)
      exact ⟨[], rfl, by simp, rfl⟩
  | succ fuel ih =>
      cases cs with
      | nil => exact ⟨[], rfl, by simp, rfl⟩
      | cons c cs =>
          obtain ⟨rest, hrest⟩ := lexeme_chars_isPrefix lineStart c cs
          have hne := lexeme_chars_ne_nil lineStart c cs
          have hkind := lexeme_kind_ne_endOfFile lineStart c cs
          simp only [lexFrom]
          generalize lexeme lineStart c cs = l at hrest hne hkind ⊢
          have hdrop : (c :: cs).drop l.chars.length = rest := by
            rw [← hrest, List.drop_left]
          have hlength : rest.length ≤ fuel := by
            have := congrArg List.length hrest
            have := List.length_pos_iff.2 hne
            simp only [List.length_append, List.length_cons] at *
            omega
          rw [hdrop]
          obtain ⟨body, htokens, hbody, htext⟩ :=
            ih (nextLineStart lineStart l.kind) (start + (String.ofList l.chars).utf8ByteSize) rest
              hlength
          refine ⟨⟨l.kind, String.ofList l.chars, start⟩ :: body, ?_, ?_, ?_⟩
          · rw [← hrest, String.ofList_append, String.utf8ByteSize_append, ← Nat.add_assoc]
            exact congrArg (_ :: ·) htokens
          · intro t ht
            rcases List.mem_cons.1 ht with rfl | ht
            · exact ⟨hkind, by simpa using hne⟩
            · exact hbody t ht
          · rw [← hrest, String.ofList_append, ← htext]
            simp [String.join_cons]

end CodeMend.Lexer

namespace CodeMend

/-- A token has the kind of what was cut somewhere, unless it is the end of the file. -/
theorem lexFrom_kinds (fuel : Nat) (lineStart : Bool) (start : Nat) (cs : List Char) :
    ∀ t ∈ (Lexer.lexFrom fuel lineStart start cs).1,
      t.kind = .endOfFile ∨ ∃ ls d ds, t.kind = (Lexer.lexeme ls d ds).kind := by
  have hend {t : Token} (ht : t ∈ [⟨.endOfFile, "", start⟩]) : t.kind = .endOfFile := by
    rw [List.mem_singleton.1 ht]
  induction fuel generalizing lineStart start cs with
  | zero =>
      intro t ht
      exact Or.inl (hend ht)
  | succ fuel ih =>
      intro t ht
      cases cs with
      | nil => exact Or.inl (hend ht)
      | cons c cs =>
          rcases List.mem_cons.1 ht with rfl | ht
          · exact Or.inr ⟨lineStart, c, cs, rfl⟩
          · exact ih _ _ _ (fun h => by rw [List.mem_singleton.1 h]) t ht

/-- The tokens of a text: tokens with text, and behind them the end of the file. -/
theorem lex_tokens (text : String) :
    ∃ body : List Token,
      (lex text).1 = body ++ [⟨.endOfFile, "", text.utf8ByteSize⟩] ∧
      (∀ t ∈ body, t.kind ≠ .endOfFile ∧ t.text ≠ "") ∧
      String.join (body.map Token.text) = text := by
  have h := Lexer.lexFrom_tokens text.toList.length true 0 text.toList (Nat.le_refl _)
  simpa [lex] using h

end CodeMend

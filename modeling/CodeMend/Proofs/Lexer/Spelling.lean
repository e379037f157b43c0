import CodeMend.Proofs.Lexer.Rereading

/-!
# Tokens on their own

A token that is a whole text stays this token where a stop but no slash follows
(`lexeme_before_stop`), and it neither starts nor ends with a blank (`lexeme_head_not_blank`,
`lexeme_last_not_blank`).  So tokens can be written one behind the other with blanks between them.
-/

namespace CodeMend.Lexer

open Text Tree

variable {b : Char}

/-! ## Behind a token -/

/-- A quoted literal that is closed does not depend on what follows. -/
theorem scanQuoted_closed {quote : Char} (hne : quote ≠ '\\') {x : List Char}
    (h : (scanQuoted quote x).2 = true) (y : List Char) :
    scanQuoted quote (x ++ y) = scanQuoted quote x := by
  fun_induction scanQuoted quote x with
  | case1 => cases h
  | case2 c cs taken closed hscan ih =>
      rw [hscan] at ih
      simp only [List.cons_append, scanQuoted, ih h]
  | case3 c cs hescape hquote =>
      have hslash : c ≠ '\\' := fun hc => hne ((beq_iff_eq.1 hquote).symm.trans hc)
      simp only [List.cons_append, scanQuoted_cons _ hslash, hquote, if_true]
  | case4 c cs hescape hquote hbreak => cases h
  | case5 c cs hescape hquote hbreak taken closed hscan ih =>
      rw [hscan] at ih
      have hslash : c ≠ '\\' := by
        intro hc
        cases cs with
        | nil =>
            cases hscan
            cases h
        | cons d cs => exact hescape d cs hc rfl
      simp only [List.cons_append, scanQuoted_cons _ hslash, hquote, hbreak, ih h,
        Bool.false_eq_true, if_false]

/-- A verbatim string that is closed ends where no second quote follows. -/
theorem scanVerbatim_closed (hb : b ≠ '"') {x : List Char} (h : (scanVerbatim x).2 = true)
    (v : List Char) : scanVerbatim (x ++ b :: v) = scanVerbatim x := by
  fun_induction scanVerbatim x with
  | case1 => cases h
  | case2 cs taken closed hscan ih =>
      rw [hscan] at ih
      simp only [List.cons_append, scanVerbatim, ih h]
  | case3 cs hsecond =>
      refine scanVerbatim_close ?_
      cases cs with
      | nil => exact fun hhead => hb (Option.some.inj hhead)
      | cons d cs => exact fun hhead => hsecond cs (by rw [Option.some.inj hhead])
  | case4 c cs hdouble hquote taken closed hscan ih =>
      rw [hscan] at ih
      have hc : c ≠ '"' := hquote
      simp only [List.cons_append, scanVerbatim_cons _ hc, ih h]

/-- A literal without a fault is closed. -/
theorem closed_of_fault {closed : Bool} {message : String}
    (h : (if closed then none else some message) = none) : closed = true := by
  cases closed with
  | false => cases h
  | true => rfl

/-- A string without a fault stays the same where a stop follows. -/
theorem scanString_closed (hb : isStop b = true) {opening : Nat} {verbatim : Bool} {x : List Char}
    (hopening : opening ≤ x.length) (h : (scanString opening verbatim x).fault = none)
    (v : List Char) : scanString opening verbatim (x ++ b :: v) = scanString opening verbatim x := by
  have hquote : b ≠ '"' := ne_of_isStop hb rfl
  simp only [scanString, List.drop_append_of_le_length hopening,
    List.take_append_of_le_length hopening] at h ⊢
  cases verbatim with
  | false =>
      simp only [Bool.false_eq_true, if_false] at h ⊢
      rw [scanQuoted_closed (by decide) (closed_of_fault h)]
  | true =>
      simp only [if_true] at h ⊢
      rw [scanVerbatim_closed hquote (closed_of_fault h)]

/-- A character literal without a fault stays the same whatever follows. -/
theorem scanChar_closed {x : List Char} (hone : 1 ≤ x.length) (h : (scanChar x).fault = none)
    (y : List Char) : scanChar (x ++ y) = scanChar x := by
  simp only [scanChar, List.drop_append_of_le_length hone,
    List.take_append_of_le_length hone] at h ⊢
  rw [scanQuoted_closed (by decide) (closed_of_fault h)]

/-- A choice gives what it gave before if its test does and the branch that was taken does. -/
theorem ite_kept {p q : Bool} {l l' m m' r : Lexeme} (hcond : q = p)
    (hl : p = true → l = r → l' = r) (hm : m = r → m' = r) :
    (if p then l else m) = r → (if q then l' else m') = r := by
  subst hcond
  cases q with
  | true => exact hl rfl
  | false => exact hm

/-- A choice gives what it gave before if the branch that is no longer taken could not give it. -/
theorem ite_dropped {p q : Bool} {l l' m m' r : Lexeme} (hl : l ≠ r) (hq : q = false)
    (hm : m = r → m' = r) : (if p then l else m) = r → (if q then l' else m') = r := by
  subst hq
  cases p with
  | true => exact fun h => absurd h hl
  | false => exact hm

/-- Every directive is trivia. -/
theorem directiveKind_isTrivia (line : List Char) : (directiveKind line).isTrivia = true := by
  simp [Kind.isTrivia, directiveKind_isDirective]

/-- What a token that is not trivia is not. -/
theorem ne_of_significant {l : Lexeme} {k : Kind} {chars : List Char} (hk : k.isTrivia = false)
    (hl : l.kind.isTrivia = true) : l ≠ ⟨k, chars, none⟩ := by
  rintro rfl
  rw [hk] at hl
  cases hl

/-- A comment is trivia, with or without a third slash. -/
theorem scanLineComment_isTrivia (x : List Char) : (scanLineComment x).kind.isTrivia = true := by
  rcases scanLineComment_kind x with hk | hk <;> rw [hk] <;> rfl

/-- **A token that is a whole text is still one where a stop follows**, unless a slash could make it a
comment. -/
theorem lexeme_before_stop (hb : isStop b = true) (hslash : b ≠ '/') {lineStart : Bool} {k : Kind}
    (hk : k.isTrivia = false) {c : Char} {x : List Char}
    (h : lexeme lineStart c x = ⟨k, c :: x, none⟩) (v : List Char) :
    lexeme false c (x ++ b :: v) = ⟨k, c :: x, none⟩ := by
  -- a test of the next character that a stop fails is a test of the text alone
  have second (p : Char → Bool) (hp : p b = false) :
      (x ++ b :: v).head?.any p = x.head?.any p := by
    cases x with
    | nil => simp [hp]
    | cons d x => rfl
  have secondEq (d : Char) (hne : b ≠ d) :
      ((x ++ b :: v).head? == some d) = (x.head? == some d) := by
    cases x with
    | nil => simp [hne]
    | cons e x => rfl
  have thirdEq (d : Char) (hne : b ≠ d) (hx : x ≠ []) :
      (((x ++ b :: v).drop 1).head? == some d) = ((x.drop 1).head? == some d) := by
    cases x with
    | nil => exact absurd rfl hx
    | cons e x =>
        cases x with
        | nil => simp [hne]
        | cons f x => rfl
  have two {d : Char} (hd : (x.head? == some d) = true) : 2 ≤ (c :: x).length := by
    cases x with
    | nil => cases hd
    | cons e x => simp
  -- a scanner that stops at a stop gives what it gave
  have kept (f : List Char → Lexeme) (hf : f (c :: x ++ b :: v) = f (c :: x))
      (h : f (c :: x) = ⟨k, c :: x, none⟩) : f (c :: (x ++ b :: v)) = ⟨k, c :: x, none⟩ :=
    hf.trans h
  have clean {l : Lexeme} (h : l = ⟨k, c :: x, none⟩) : l.fault = none := by rw [h]
  revert h
  unfold lexeme
  dsimp only
  refine ite_kept rfl (fun _ h => absurd h (ne_of_significant hk (by rw [scanNewline_kind]; rfl))) ?_
  refine ite_kept rfl (fun _ h => absurd h (ne_of_significant hk rfl)) ?_
  refine ite_dropped (ne_of_significant hk (directiveKind_isTrivia _))
    (by rw [Bool.and_false]) ?_
  refine ite_kept (by rw [secondEq _ hslash])
    (fun _ h => absurd h (ne_of_significant hk (scanLineComment_isTrivia _))) ?_
  refine ite_kept (by rw [secondEq _ (ne_of_isStop hb rfl)]) (fun _ h => absurd h (ne_of_significant hk rfl)) ?_
  refine ite_kept (by rw [second _ (isDigit_stop hb)])
    (fun _ h => kept _ (scanNumber_stop hb _ _) h) ?_
  refine ite_kept rfl (fun _ h => kept _ (scanString_closed hb (by simp) (clean h) v) h) ?_
  refine ite_kept (by rw [secondEq _ (ne_of_isStop hb rfl)]) (fun hp h => ?_) ?_
  · exact kept _ (scanString_closed hb (two (Bool.and_eq_true_iff.1 hp).2) (clean h) v) h
  refine ite_kept (by rw [secondEq _ (ne_of_isStop hb rfl)]) (fun hp h => ?_) ?_
  · exact kept _ (scanString_closed hb (two (Bool.and_eq_true_iff.1 hp).2) (clean h) v) h
  refine ite_kept ?_ (fun hp h => ?_) ?_
  · rw [secondEq _ (ne_of_isStop hb rfl), secondEq _ (ne_of_isStop hb rfl)]
    by_cases hx : x = []
    · subst hx
      simp
    · rw [thirdEq _ (ne_of_isStop hb rfl) hx]
  · refine kept _ (scanString_closed hb ?_ (clean h) v) h
    obtain ⟨-, hthird⟩ := Bool.and_eq_true_iff.1 hp
    cases x with
    | nil => cases hthird
    | cons d x =>
        cases x with
        | nil => cases hthird
        | cons e x => simp
  refine ite_kept rfl (fun _ h => kept _ (scanChar_closed (by simp) (clean h) _) h) ?_
  refine ite_kept rfl (fun _ h => kept _ (scanWord_stop hb _ _) h) ?_
  refine ite_kept (by rw [second _ (isWordStart_stop hb)]) (fun _ h => ?_) fun h => ?_
  · rw [takeWhile_stop (isWordPart_stop hb)]
    exact h
  · rw [scanPunctuation_stop hb]
    exact h

/-! ## The ends of a token -/

/-- The first character of a token that is not trivia is not blank. -/
theorem lexeme_head_not_blank {lineStart : Bool} {c : Char} {cs chars : List Char} {k : Kind}
    (hk : k.isTrivia = false) (h : lexeme lineStart c cs = ⟨k, chars, none⟩) :
    isBlank c = false := by
  cases hblank : isBlank c with
  | false => rfl
  | true =>
      by_cases hbreak : isLineBreak c = true
      · rw [lexeme_of_isLineBreak lineStart cs hbreak] at h
        exact absurd h (ne_of_significant hk (by rw [scanNewline_kind]; rfl))
      · unfold lexeme at h
        rw [if_neg hbreak, if_pos hblank] at h
        exact absurd h (ne_of_significant hk rfl)

/-- A row of characters that does not end with a blank. -/
def EndsDark (cs : List Char) : Prop := ∀ c ∈ cs.getLast?, isBlank c = false

/-- Two rows that do not end with a blank make one. -/
theorem EndsDark.append {xs ys : List Char} (hxs : EndsDark xs) (hys : EndsDark ys) :
    EndsDark (xs ++ ys) := by
  intro c hc
  rw [List.getLast?_append] at hc
  cases hlast : ys.getLast? with
  | none =>
      rw [hlast] at hc
      exact hxs c hc
  | some d =>
      rw [hlast] at hc
      exact hys c (by rw [hlast]; exact hc)

/-- Where no character is blank, the last one is not. -/
theorem EndsDark.of_all {p : Char → Bool} (hp : ∀ c, p c = true → isBlank c = false)
    {cs : List Char} (h : ∀ c ∈ cs, p c = true) : EndsDark cs :=
  fun c hc => hp c (h c (List.mem_of_mem_getLast? hc))

/-- A stretch of characters of words does not end with a blank. -/
theorem endsDark_takeWhile {p : Char → Bool} (hp : ∀ {c}, p c = true → isWordPart c = true)
    (cs : List Char) : EndsDark (cs.takeWhile p) :=
  .of_all (fun _ h => not_isBlank_of_isWordPart (hp h)) (List.all_eq_true.1 List.all_takeWhile)

/-- A character that is not blank, in front of a row that does not end with one. -/
theorem EndsDark.cons {c : Char} {cs : List Char} (hc : isBlank c = false) (hcs : EndsDark cs) :
    EndsDark (c :: cs) := by
  have hone : EndsDark [c] := fun d hd => by
    rw [← Option.some.inj hd]
    exact hc
  exact hone.append hcs

/-- The empty row does not end with a blank. -/
theorem endsDark_nil : EndsDark [] := by
  intro c hc
  cases hc

/-- A fraction ends with a character that words may have. -/
theorem endsDark_scanFraction (cs : List Char) : EndsDark (scanFraction cs) := by
  unfold scanFraction
  split
  · split
    · exact .cons (by decide) (endsDark_takeWhile isWordPart_of_isDigitOrGap _)
    · exact endsDark_nil
  · exact endsDark_nil

/-- The sign of an exponent is no blank. -/
theorem endsDark_scanSign (cs : List Char) : EndsDark (scanSign cs) := by
  unfold scanSign
  split
  · next s rest =>
    split
    · next hsign =>
      refine .cons ?_ endsDark_nil
      rcases Bool.or_eq_true_iff.1 hsign with h | h <;> rw [beq_iff_eq.1 h] <;> decide
    · exact endsDark_nil
  · exact endsDark_nil

/-- An exponent ends with its letter, its sign or a character that words may have. -/
theorem endsDark_scanExponent (cs : List Char) : EndsDark (scanExponent cs) := by
  unfold scanExponent
  split
  · next e rest =>
    dsimp only
    split
    · next hmark =>
      split
      · exact endsDark_nil
      · refine .cons ?_ ((endsDark_scanSign _).append (endsDark_takeWhile isWordPart_of_isDigit _))
        rcases Bool.or_eq_true_iff.1 hmark with h | h <;> rw [beq_iff_eq.1 h] <;> decide
    · exact endsDark_nil
  · exact endsDark_nil

/-- A number ends with a character that words may have. -/
theorem endsDark_scanNumber (cs : List Char) : EndsDark (scanNumber cs).chars := by
  have hsuffix (n : Nat) := endsDark_takeWhile isWordPart_of_isAlpha (cs.drop n)
  unfold scanNumber
  split
  · next hhex =>
    refine ((EndsDark.append ?_ (endsDark_takeWhile
      (p := fun c => isHexDigit c || c == '_') isWordPart_of_isHexDigitOrGap _)).append (hsuffix _))
    unfold startsHex at hhex
    split at hhex
    · next x rest =>
      refine .cons (by decide) (.cons ?_ endsDark_nil)
      rcases Bool.or_eq_true_iff.1 hhex with h | h <;> rw [beq_iff_eq.1 h] <;> decide
    · cases hhex
  · have hwhole := endsDark_takeWhile isWordPart_of_isDigitOrGap cs
    exact ((hwhole.append (endsDark_scanFraction _)).append (endsDark_scanExponent _)).append
      (hsuffix _)

/-- A quoted literal that is closed ends with its quote. -/
theorem scanQuoted_getLast? {quote : Char} {x : List Char} (h : (scanQuoted quote x).2 = true) :
    (scanQuoted quote x).1.getLast? = some quote := by
  fun_induction scanQuoted quote x with
  | case1 => cases h
  | case2 c cs taken closed hscan ih =>
      rw [hscan] at ih
      simp [List.getLast?_cons, ih h]
  | case3 c cs hescape hquote => simpa using hquote
  | case4 c cs hescape hquote hbreak => cases h
  | case5 c cs hescape hquote hbreak taken closed hscan ih =>
      rw [hscan] at ih
      simp [List.getLast?_cons, ih h]

/-- A verbatim string that is closed ends with a quote. -/
theorem scanVerbatim_getLast? {x : List Char} (h : (scanVerbatim x).2 = true) :
    (scanVerbatim x).1.getLast? = some '"' := by
  fun_induction scanVerbatim x with
  | case1 => cases h
  | case2 cs taken closed hscan ih =>
      rw [hscan] at ih
      simp [List.getLast?_cons, ih h]
  | case3 cs hsecond => rfl
  | case4 c cs hdouble hquote taken closed hscan ih =>
      rw [hscan] at ih
      simp [List.getLast?_cons, ih h]

/-- A row whose last character is not blank. -/
theorem EndsDark.of_getLast? {c : Char} (hc : isBlank c = false) {xs ys : List Char}
    (h : ys.getLast? = some c) : EndsDark (xs ++ ys) := by
  intro d hd
  rw [List.getLast?_append, h] at hd
  rw [← Option.some.inj hd]
  exact hc

/-- No mark ends with a blank. -/
theorem punctuation_dark : ∀ p ∈ punctuation, EndsDark p.1 := by
  have hall : (punctuation.all fun p => p.1.all fun c => !isBlank c) = true := by decide
  intro p hp
  refine .of_all (p := fun c => !isBlank c) (fun c hc => by simpa using hc) fun c hc => ?_
  exact List.all_eq_true.1 (List.all_eq_true.1 hall p hp) c hc

/-- **A token that is not trivia does not end with a blank.** -/
theorem lexeme_last_not_blank {lineStart : Bool} {c : Char} {cs chars : List Char} {k : Kind}
    (hk : k.isTrivia = false) (h : lexeme lineStart c cs = ⟨k, chars, none⟩) : EndsDark chars := by
  have hkind : (lexeme lineStart c cs).kind.isTrivia = false := by rw [h, hk]
  have hfault : (lexeme lineStart c cs).fault = none := by rw [h]
  rw [show chars = (lexeme lineStart c cs).chars by rw [h]]
  revert hkind hfault
  apply lexeme_cases
    (motive := fun l => l.kind.isTrivia = false → l.fault = none → EndsDark l.chars)
  case newline =>
    intro _ hkind
    rw [scanNewline_kind] at hkind
    cases hkind
  case blanks =>
    intro _ _ hkind
    cases hkind
  case directive =>
    intro _ _ hkind
    exact absurd (hkind.symm.trans (directiveKind_isTrivia _)) Bool.false_ne_true
  case lineComment =>
    intro _ _ hkind
    rw [scanLineComment_isTrivia] at hkind
    cases hkind
  case blockComment =>
    intro _ _ hkind
    cases hkind
  case number => exact fun _ _ _ => endsDark_scanNumber _
  case string =>
    intro opening verbatim _ _ hfault
    cases verbatim with
    | false => exact .of_getLast? (by decide) (scanQuoted_getLast? (closed_of_fault hfault))
    | true => exact .of_getLast? (by decide) (scanVerbatim_getLast? (closed_of_fault hfault))
  case char =>
    intro _ _ hfault
    exact .of_getLast? (by decide) (scanQuoted_getLast? (closed_of_fault hfault))
  case word =>
    exact fun _ _ _ => endsDark_takeWhile id _
  case verbatimWord =>
    rintro rfl _ _ _
    exact .cons (by decide) (endsDark_takeWhile id _)
  case punctuation =>
    intro _ _ _ _ hfault
    unfold scanPunctuation at hfault ⊢
    split at hfault
    · next hfind => exact punctuation_dark _ (List.mem_of_find?_eq_some hfind)
    · cases hfault

/-! ## Tokens with blanks between them -/

/-- The text is cut into one token of kind `k` that is not trivia, without a complaint. -/
structure Spelled (k : Kind) (text : String) : Prop where
  significant : k.isTrivia = false
  tokens : (lex text).1.map Token.stored = [(k, text), (.endOfFile, "")]
  errors : (lex text).2 = []

instance (k : Kind) (text : String) : Decidable (Spelled k text) :=
  decidable_of_iff (_ ∧ _ ∧ _) ⟨fun h => ⟨h.1, h.2.1, h.2.2⟩, fun h => ⟨h.1, h.2, h.3⟩⟩

/-- A spelled token is what the lexer cuts off at the start of its text. -/
theorem Spelled.lexeme {k : Kind} {text : String} (h : Spelled k text) :
    ∃ c cs, text.toList = c :: cs ∧ Lexer.lexeme true c cs = ⟨k, c :: cs, none⟩ := by
  obtain ⟨xs, hlexes, -, hstored⟩ := lexes_of_lex h.errors
  obtain rfl : [(k, text)] = xs := List.append_cancel_right (hstored ▸ h.tokens.symm)
  cases hlexes with
  | @cons _ _ _ c cs _ chars front rest =>
      rw [charsOf_nil, List.append_nil] at chars
      exact ⟨c, cs, chars, by rw [front, chars]⟩

/-- The blank between two tokens. -/
def blank : Kind × String := (.whitespace, " ")

/-- The tokens of words with one blank between each two of them.  A word is one token, but for a right
shift. -/
inductive Tidy : Stored → List String → Prop where
  | word {k : Kind} {text : String} (h : Spelled k text) : Tidy [(k, text)] [text]
  | shift : Tidy [(.gt, ">"), (.gt, ">")] [">>"]
  | join {xs ys : Stored} {us vs : List String} (hxs : Tidy xs us) (hys : Tidy ys vs) :
      Tidy (xs ++ blank :: ys) (us ++ vs)

/-- There is at least one word. -/
theorem Tidy.ne_nil {xs : Stored} {ws : List String} (h : Tidy xs ws) : ws ≠ [] := by
  induction h with
  | word h => exact List.cons_ne_nil _ _
  | shift => exact List.cons_ne_nil _ _
  | join hxs hys ihx ihy => exact fun h => ihx (List.append_eq_nil_iff.1 h).1

/-- The text of the tokens is that of the words. -/
theorem Tidy.text {xs : Stored} {ws : List String} (h : Tidy xs ws) :
    textOf xs = " ".intercalate ws := by
  induction h with
  | word h => simp [textOf]
  | shift => rfl
  | join hxs hys ihx ihy =>
      rw [textOf_append, textOf_cons, ihx, ihy,
        String.intercalate_append_of_ne_nil hxs.ne_nil hys.ne_nil, String.append_assoc]
      rfl

/-- Tidy tokens do not start with a blank. -/
theorem Tidy.head {xs : Stored} {ws : List String} (h : Tidy xs ws) :
    ∃ c cs, charsOf xs = c :: cs ∧ isBlank c = false := by
  induction h with
  | @word k text h =>
      obtain ⟨c, cs, htext, hlexeme⟩ := h.lexeme
      exact ⟨c, cs, by simp [htext], lexeme_head_not_blank h.significant hlexeme⟩
  | shift => exact ⟨'>', ['>'], rfl, by decide⟩
  | join hxs hys ihx ihy =>
      obtain ⟨c, cs, hchars, hc⟩ := ihx
      exact ⟨c, _, by rw [charsOf_append, hchars]; rfl, hc⟩

/-- Tidy tokens do not end with a blank. -/
theorem Tidy.last {xs : Stored} {ws : List String} (h : Tidy xs ws) : EndsDark (charsOf xs) := by
  induction h with
  | @word k text h =>
      obtain ⟨c, cs, htext, hlexeme⟩ := h.lexeme
      rw [charsOf_cons, charsOf_nil, List.append_nil, htext]
      exact lexeme_last_not_blank h.significant hlexeme
  | shift => exact .cons (by decide) (.cons (by decide) endsDark_nil)
  | @join xs ys us vs hxs hys ihx ihy =>
      obtain ⟨c, cs, hchars, -⟩ := hys.head
      obtain ⟨d, hd⟩ : ∃ d, (charsOf ys).getLast? = some d := by
        rw [hchars]
        exact ⟨_, List.getLast?_cons⟩
      rw [charsOf_append, charsOf_cons, ← List.append_assoc]
      exact .of_getLast? (ihy d hd) hd

/-- Trimming leaves tokens as they are that neither start nor end with a blank. -/
theorem trim_textOf {xs : Stored} (hhead : ∃ c cs, charsOf xs = c :: cs ∧ isBlank c = false)
    (hlast : EndsDark (charsOf xs)) : Text.trim (textOf xs) = textOf xs := by
  obtain ⟨c, cs, hchars, hc⟩ := hhead
  have hstart : trimStart (charsOf xs) = charsOf xs := by simp [trimStart, hchars, hc]
  have hend : trimEnd (charsOf xs) = charsOf xs := by
    unfold EndsDark at hlast
    rw [← List.head?_reverse] at hlast
    unfold trimEnd
    cases hreverse : (charsOf xs).reverse with
    | nil => simpa using hreverse
    | cons d ds =>
        rw [hreverse] at hlast
        rw [List.dropWhile_cons_of_neg (by simp [hlast d rfl]), ← hreverse, List.reverse_reverse]
  rw [Text.trim, toList_textOf, hstart, hend, ← toList_textOf, String.ofList_toList]

/-- Behind a significant token no directive can start. -/
theorem Spelled.nextLineStart {k : Kind} {text : String} (h : Spelled k text) :
    Lexer.nextLineStart false k = false := by
  have hne : k ≠ .newline := by
    rintro rfl
    exact absurd h.significant (by decide)
  simp [Lexer.nextLineStart, hne]

/-- A blank before a character that is not blank is cut off by itself. -/
theorem lexeme_blank {c : Char} (hc : isBlank c = false) (cs : List Char) :
    Lexer.lexeme false ' ' (c :: cs) = ⟨.whitespace, [' '], none⟩ := by
  have htake : (' ' :: c :: cs).takeWhile (fun d => isBlank d && !isLineBreak d) = [' '] := by
    rw [List.takeWhile_cons_of_pos (by decide), List.takeWhile_cons_of_neg (by simp [hc])]
  unfold Lexer.lexeme
  rw [if_neg (by decide), if_pos (by decide), htake]

/-- **Tidy tokens read back** where a stop but no slash follows them. -/
theorem Tidy.lexes {xs rest : Stored} {ws : List String} (h : Tidy xs ws) (hrest : Lexes false rest)
    (hstop : ∃ b v, charsOf rest = b :: v ∧ isStop b = true ∧ b ≠ '/') :
    Lexes false (xs ++ rest) := by
  obtain ⟨b, v, hb, hstop, hslash⟩ := hstop
  induction h generalizing rest b v with
  | @word k text h =>
      obtain ⟨c, cs, htext, hlexeme⟩ := h.lexeme
      rw [List.singleton_append]
      have hchars : text.toList ++ charsOf rest = c :: (cs ++ b :: v) := by
        rw [htext, hb]
        rfl
      refine .cons hchars ?_ ?_
      · rw [htext]
        exact lexeme_before_stop hstop hslash h.significant hlexeme v
      · rw [h.nextLineStart]
        exact hrest
  | shift =>
      have hfirst : Lexer.lexeme false '>' ('>' :: b :: v) = ⟨.gt, ['>'], none⟩ := rfl
      have halone : Lexer.lexeme true '>' [] = ⟨.gt, ['>'], none⟩ := rfl
      have hsecond : Lexer.lexeme false '>' (b :: v) = ⟨.gt, ['>'], none⟩ :=
        lexeme_before_stop hstop hslash rfl halone v
      have hchars : ">".toList ++ charsOf rest = '>' :: b :: v := by
        rw [hb]
        rfl
      have hchars' : ">".toList ++ charsOf ((.gt, ">") :: rest) = '>' :: '>' :: b :: v := by
        rw [charsOf_cons, hchars]
        rfl
      have hrest' : Lexes false ((.gt, ">") :: rest) := .cons hchars hsecond hrest
      show Lexes false ((.gt, ">") :: (.gt, ">") :: rest)
      exact .cons hchars' hfirst hrest'
  | @join xs ys us vs hxs hys ihx ihy =>
      have hys' := ihy hrest b v hb hstop hslash
      obtain ⟨c, cs, hchars, hc⟩ := hys.head
      have hblank : Lexes false (blank :: (ys ++ rest)) := by
        have hspaced : " ".toList ++ charsOf (ys ++ rest) = ' ' :: charsOf (ys ++ rest) := rfl
        refine .cons hspaced ?_ hys'
        rw [charsOf_append, hchars]
        exact lexeme_blank hc _
      rw [List.append_assoc, List.cons_append]
      exact ihx hblank ' ' _ rfl rfl (by decide)

end CodeMend.Lexer

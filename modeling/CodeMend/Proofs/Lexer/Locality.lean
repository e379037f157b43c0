import CodeMend.Proofs.Lexer.Characters
import CodeMend.Proofs.Lexer.Tiling

/-!
# A token does not look beyond the stop behind it

What stands behind a stop, such as a blank or a semicolon, has no influence on a token that ends before
the stop (`lexeme_local`).  Numbers, words and operators take a stop for the end of the text.  White
space, comments and literals may read on; but then the token would hold the stop.
-/

namespace CodeMend.Lexer

open Text

variable {b : Char}

/-! ## Scanners that end at a stop -/

/-- A stretch whose test fails for the stop ends before it. -/
theorem takeWhile_stop {p : Char → Bool} (hp : p b = false) (x v : List Char) :
    (x ++ b :: v).takeWhile p = x.takeWhile p := by
  induction x with
  | nil => simp [hp]
  | cons c x ih =>
      rw [List.cons_append, List.takeWhile_cons, List.takeWhile_cons, ih]

/-- The fraction of a number ends before a stop. -/
theorem scanFraction_stop (hb : isStop b = true) (x v : List Char) :
    scanFraction (x ++ b :: v) = scanFraction x := by
  have hpoint : b ≠ '.' := ne_of_isStop hb rfl
  match x with
  | [] =>
      simp [scanFraction, hpoint]
  | [c] =>
      by_cases hc : c = '.'
      · subst hc
        simp [scanFraction, isDigit_stop hb]
      · simp [scanFraction, hc]
  | c :: d :: x =>
      by_cases hc : c = '.'
      · subst hc
        have hdigits := takeWhile_stop (isDigitOrGap_stop hb) (d :: x) v
        simp only [List.cons_append] at hdigits
        simp only [List.cons_append, scanFraction, hdigits]
      · simp [scanFraction, hc]

/-- The sign of an exponent ends before a stop. -/
theorem scanSign_stop (hb : isStop b = true) (x v : List Char) :
    scanSign (x ++ b :: v) = scanSign x := by
  cases x with
  | nil =>
      have hplus : b ≠ '+' := ne_of_isStop hb rfl
      have hminus : b ≠ '-' := ne_of_isStop hb rfl
      simp [scanSign, hplus, hminus]
  | cons c x => rfl

/-- Behind a stretch at the front, what was put behind the text is still there. -/
theorem drop_stop {taken x : List Char} (h : taken <+: x) (v : List Char) :
    (x ++ b :: v).drop taken.length = x.drop taken.length ++ b :: v :=
  List.drop_append_of_le_length h.length_le

/-- The exponent of a number ends before a stop. -/
theorem scanExponent_stop (hb : isStop b = true) (x v : List Char) :
    scanExponent (x ++ b :: v) = scanExponent x := by
  cases x with
  | nil =>
      have hsmall : b ≠ 'e' := ne_of_isStop hb rfl
      have hlarge : b ≠ 'E' := ne_of_isStop hb rfl
      simp [scanExponent, hsmall, hlarge]
  | cons e x =>
      simp only [List.cons_append, scanExponent, scanSign_stop hb,
        drop_stop (scanSign_isPrefix x), takeWhile_stop (isDigit_stop hb)]

/-- Whether a number is hexadecimal is decided before a stop. -/
theorem startsHex_stop (hb : isStop b = true) (x v : List Char) :
    startsHex (x ++ b :: v) = startsHex x := by
  match x with
  | [] =>
      have hzero : b ≠ '0' := ne_of_isStop hb rfl
      unfold startsHex
      split
      · next heq => exact absurd (List.cons.inj heq).1 hzero
      · rfl
  | [c] =>
      by_cases hc : c = '0'
      · subst hc
        have hsmall : b ≠ 'x' := ne_of_isStop hb rfl
        have hlarge : b ≠ 'X' := ne_of_isStop hb rfl
        simp [startsHex, hsmall, hlarge]
      · simp [startsHex, hc]
  | c :: d :: x =>
      by_cases hc : c = '0'
      · subst hc
        rfl
      · simp [startsHex, hc]

/-- A hexadecimal number has its prefix of two characters. -/
theorem two_le_length_of_startsHex {x : List Char} (h : startsHex x = true) : 2 ≤ x.length := by
  unfold startsHex at h
  split at h
  · simp
  · cases h

/-- A number ends before a stop. -/
theorem scanNumber_stop (hb : isStop b = true) (x v : List Char) :
    scanNumber (x ++ b :: v) = scanNumber x := by
  unfold scanNumber
  rw [startsHex_stop hb]
  cases hhex : startsHex x with
  | true =>
      have htwo := two_le_length_of_startsHex hhex
      have hdrop : (x ++ b :: v).drop 2 = x.drop 2 ++ b :: v := List.drop_append_of_le_length htwo
      have htake : (x ++ b :: v).take 2 = x.take 2 := List.take_append_of_le_length htwo
      have hdigits := takeWhile_stop (p := fun c => isHexDigit c || c == '_')
        (isHexDigitOrGap_stop hb) (x.drop 2) v
      simp only [if_true, hdrop, htake, hdigits, ← List.drop_drop,
        drop_stop (List.takeWhile_prefix _), takeWhile_stop (isAlpha_stop hb)]
  | false =>
      have hwhole := List.takeWhile_prefix isDigitOrGap (l := x)
      have hdigits := append_isPrefix hwhole (scanFraction_isPrefix _)
      have hbody := append_isPrefix hdigits (scanExponent_isPrefix _)
      simp only [Bool.false_eq_true, if_false, takeWhile_stop (isDigitOrGap_stop hb),
        drop_stop hwhole, scanFraction_stop hb, drop_stop hdigits, scanExponent_stop hb,
        drop_stop hbody, takeWhile_stop (isAlpha_stop hb)]

/-- A word ends before a stop. -/
theorem scanWord_stop (hb : isStop b = true) (x v : List Char) :
    scanWord (x ++ b :: v) = scanWord x := by
  unfold scanWord
  rw [takeWhile_stop (isWordPart_stop hb)]

/-- A word stands at the front of a text only if it stands before a character that is not in it. -/
theorem isPrefixOf_stop {word : List Char} (hword : b ∉ word) (x v : List Char) :
    word.isPrefixOf (x ++ b :: v) = word.isPrefixOf x := by
  induction word generalizing x with
  | nil => simp
  | cons c word ih =>
      obtain ⟨hc, hword⟩ : b ≠ c ∧ b ∉ word := by simpa using hword
      cases x with
      | nil => simp [List.isPrefixOf, hc.symm]
      | cons d x =>
          simp only [List.cons_append, List.isPrefixOf_cons_cons]
          rw [ih hword]

/-- No stop stands behind the first character of punctuation. -/
theorem punctuation_tail_isStop : ∀ p ∈ punctuation, ∀ c ∈ p.1.tail, isStop c = false := by
  have hall : (punctuation.all fun p => p.1.tail.all fun c => !isStop c) = true := by decide
  intro p hp c hc
  simpa using List.all_eq_true.1 (List.all_eq_true.1 hall p hp) c hc

/-- The longest mark that fits holds no stop behind its first character, so it is the same
without the stop. -/
theorem scanPunctuation_stop (hb : isStop b = true) (c : Char) (x v : List Char) :
    scanPunctuation c (x ++ b :: v) = scanPunctuation c x := by
  have hfront (p : List Char × Kind) (hp : p ∈ punctuation) :
      p.1.isPrefixOf (c :: (x ++ b :: v)) = p.1.isPrefixOf (c :: x) := by
    cases hword : p.1 with
    | nil => rfl
    | cons d word =>
        have hmem : b ∉ word := by
          intro hmem
          have hstop := punctuation_tail_isStop p hp b (by rw [hword]; exact hmem)
          rw [hb] at hstop
          cases hstop
        rw [List.isPrefixOf_cons_cons, List.isPrefixOf_cons_cons, isPrefixOf_stop hmem]
  have hfind : punctuation.find? (fun p => p.1.isPrefixOf (c :: (x ++ b :: v))) =
      punctuation.find? (fun p => p.1.isPrefixOf (c :: x)) := by
    rw [← List.head?_filter, ← List.head?_filter]
    exact congrArg List.head? (List.filter_congr hfront)
  unfold scanPunctuation
  rw [hfind]

/-! ## Scanners that may pass a stop -/

/-- A stretch that ends no later than at the stop ends where it does whatever stands behind the
stop. -/
theorem takeWhile_local {p : Char → Bool} {x : List Char} (v v' : List Char)
    (h : ((x ++ b :: v).takeWhile p).length ≤ x.length) :
    (x ++ b :: v').takeWhile p = (x ++ b :: v).takeWhile p := by
  induction x with
  | nil =>
      cases hb : p b with
      | false => simp [hb]
      | true => simp [hb] at h
  | cons c x ih =>
      cases hc : p c with
      | false => simp [hc]
      | true =>
          simp only [List.cons_append, List.takeWhile_cons, hc, if_true, List.length_cons] at h ⊢
          rw [ih (by omega)]

/-- A line that ends before the stop, or at it, ends at a line break. -/
theorem exists_break {x v : List Char} (h : (scanLine (x ++ b :: v)).length ≤ x.length) :
    ∃ line e rest, isLineBreak e = true ∧ ∀ w, ∃ u, x ++ b :: w = line ++ e :: (rest ++ u) := by
  by_cases hb : isLineBreak b = true
  · exact ⟨x, b, [], hb, fun w => ⟨w, rfl⟩⟩
  by_cases hall : ∀ c ∈ x, (!isLineBreak c) = true
  · unfold scanLine at h
    rw [List.takeWhile_append_of_pos hall, List.takeWhile_cons_of_pos (by simpa using hb),
      List.length_append, List.length_cons] at h
    omega
  · obtain ⟨e, he, hbreak⟩ : ∃ e ∈ x, isLineBreak e = true := by simpa using hall
    obtain ⟨line, rest, rfl⟩ := List.append_of_mem he
    exact ⟨line, e, rest, hbreak, fun w => ⟨b :: w, by simp⟩⟩

/-- A line ends before a line break. -/
theorem scanLine_stop {e : Char} (he : isLineBreak e = true) (x v : List Char) :
    scanLine (x ++ e :: v) = scanLine x := takeWhile_stop (by rw [he]; rfl) x v

/-- A directive that ends before the stop does not depend on what stands behind it. -/
theorem scanDirective_local {x : List Char} (v v' : List Char)
    (h : (scanDirective (x ++ b :: v)).chars.length ≤ x.length) :
    scanDirective (x ++ b :: v') = scanDirective (x ++ b :: v) := by
  unfold scanDirective scanLine at h ⊢
  rw [takeWhile_local v v' h]

/-- A comment to the end of the line ends before a line break. -/
theorem scanLineComment_stop {e : Char} (he : isLineBreak e = true) (x v : List Char) :
    scanLineComment (x ++ e :: v) = scanLineComment x := by
  have hslash : e ≠ '/' := by
    rintro rfl
    cases he
  unfold scanLineComment
  rw [scanLine_stop he, isPrefixOf_stop (by simp [hslash]), isPrefixOf_stop (by simp [hslash])]

/-- A comment to the end of the line that ends before the stop does not depend on what stands
behind it. -/
theorem scanLineComment_local {x : List Char} (v v' : List Char)
    (h : (scanLineComment (x ++ b :: v)).chars.length ≤ x.length) :
    scanLineComment (x ++ b :: v') = scanLineComment (x ++ b :: v) := by
  obtain ⟨line, e, rest, he, hsplit⟩ := exists_break h
  obtain ⟨u, hu⟩ := hsplit v
  obtain ⟨u', hu'⟩ := hsplit v'
  rw [hu, hu', scanLineComment_stop he, scanLineComment_stop he]


/-- A character that does not close the comment is part of it. -/
theorem scanComment_cons {c : Char} {cs : List Char} (h : c = '*' → cs.head? ≠ some '/') :
    scanComment (c :: cs) = (c :: (scanComment cs).1, (scanComment cs).2) := by
  by_cases hc : c = '*'
  · subst hc
    cases cs with
    | nil => rfl
    | cons d cs =>
        have hd : d ≠ '/' := fun hd => h rfl (congrArg some hd)
        simp [scanComment, hd]
  · simp [scanComment, hc]

/-- A character without a backslash closes the literal, breaks it off, or is part of it. -/
theorem scanQuoted_cons {quote c : Char} (cs : List Char) (h : c ≠ '\\') :
    scanQuoted quote (c :: cs) =
      if c == quote then ([c], true)
      else if isLineBreak c then ([], false)
      else (c :: (scanQuoted quote cs).1, (scanQuoted quote cs).2) := by
  simp [scanQuoted, h]

/-- A character that is no quote is part of a verbatim string. -/
theorem scanVerbatim_cons {c : Char} (cs : List Char) (h : c ≠ '"') :
    scanVerbatim (c :: cs) = (c :: (scanVerbatim cs).1, (scanVerbatim cs).2) := by
  simp [scanVerbatim, h]

/-- A quote that no second one follows closes a verbatim string. -/
theorem scanVerbatim_close {cs : List Char} (h : cs.head? ≠ some '"') :
    scanVerbatim ('"' :: cs) = (['"'], true) := by
  cases cs with
  | nil => rfl
  | cons d cs =>
      have hd : d ≠ '"' := fun hd => h (congrArg some hd)
      simp [scanVerbatim, hd]

/-- The first character of a text that goes on with a stop. -/
theorem head?_stop (x v v' : List Char) : (x ++ b :: v').head? = (x ++ b :: v).head? := by
  cases x <;> rfl

/-- A comment in slashes that ends before the stop does not depend on what stands behind it, by
induction on the text before the stop. -/
theorem scanComment_local (hb : isStop b = true) {x : List Char} (v v' : List Char)
    (h : (scanComment (x ++ b :: v)).1.length ≤ x.length) :
    scanComment (x ++ b :: v') = scanComment (x ++ b :: v) := by
  induction x with
  | nil =>
      have hstar : b ≠ '*' := ne_of_isStop hb rfl
      rw [List.nil_append, scanComment_cons fun h => absurd h hstar] at h
      simp at h
  | cons c x ih =>
      simp only [List.cons_append]
      by_cases hclose : c = '*' ∧ (x ++ b :: v).head? = some '/'
      · obtain ⟨rfl, hhead⟩ := hclose
        cases x with
        | nil =>
            obtain rfl : b = '/' := Option.some.inj hhead
            simp [scanComment] at h
        | cons d x =>
            obtain rfl : d = '/' := Option.some.inj hhead
            rfl
      · have hgoesOn : c = '*' → (x ++ b :: v).head? ≠ some '/' := fun hc hh => hclose ⟨hc, hh⟩
        rw [List.cons_append, scanComment_cons hgoesOn] at h
        rw [scanComment_cons hgoesOn, scanComment_cons (by rwa [head?_stop x v v']),
          ih (by simpa using h)]

/-- The same for a quoted literal, where a backslash takes the character behind it along. -/
theorem scanQuoted_local (hb : isStop b = true) {quote : Char} {x : List Char}
    (v v' : List Char) (h : (scanQuoted quote (x ++ b :: v)).1.length ≤ x.length) :
    scanQuoted quote (x ++ b :: v') = scanQuoted quote (x ++ b :: v) := by
  match x with
  | [] =>
      have hslash : b ≠ '\\' := ne_of_isStop hb rfl
      simp only [List.nil_append, scanQuoted_cons _ hslash] at h ⊢
      by_cases hquote : (b == quote) = true
      · simp [hquote] at h
      by_cases hbreak : isLineBreak b = true
      · simp only [hquote, hbreak, if_true]
      · simp [hquote, hbreak] at h
  | c :: x =>
      by_cases hslash : c = '\\'
      · subst hslash
        match x with
        | [] => simp [scanQuoted] at h
        | d :: x =>
            simp only [List.cons_append, scanQuoted, List.length_cons] at h ⊢
            rw [scanQuoted_local hb v v' (by omega)]
      · simp only [List.cons_append, scanQuoted_cons _ hslash] at h ⊢
        by_cases hquote : (c == quote) = true
        · simp only [hquote, if_true]
        by_cases hbreak : isLineBreak c = true
        · simp only [hquote, hbreak, if_true]
        simp only [hquote, hbreak, List.length_cons] at h ⊢
        rw [scanQuoted_local hb v v' (by simpa using h)]

/-- The same for a verbatim string, where two quotes stand for one. -/
theorem scanVerbatim_local (hb : isStop b = true) {x : List Char} (v v' : List Char)
    (h : (scanVerbatim (x ++ b :: v)).1.length ≤ x.length) :
    scanVerbatim (x ++ b :: v') = scanVerbatim (x ++ b :: v) := by
  have hb' : b ≠ '"' := ne_of_isStop hb rfl
  match x with
  | [] =>
      rw [List.nil_append, scanVerbatim_cons _ hb'] at h
      simp at h
  | c :: x =>
      by_cases hc : c = '"'
      · subst hc
        match x with
        | [] =>
            have hclose (v : List Char) : (b :: v).head? ≠ some '"' := fun h => hb' (Option.some.inj h)
            rw [List.cons_append, List.nil_append, scanVerbatim_close (hclose v'),
              List.cons_append, List.nil_append, scanVerbatim_close (hclose v)]
        | d :: x =>
            by_cases hd : d = '"'
            · subst hd
              simp only [List.cons_append, scanVerbatim, List.length_cons] at h ⊢
              rw [scanVerbatim_local hb v v' (by omega)]
            · have hclose (v : List Char) : (d :: (x ++ b :: v)).head? ≠ some '"' :=
                fun h => hd (Option.some.inj h)
              simp only [List.cons_append]
              rw [scanVerbatim_close (hclose v'), scanVerbatim_close (hclose v)]
      · simp only [List.cons_append, scanVerbatim_cons _ hc, List.length_cons] at h ⊢
        rw [scanVerbatim_local hb v v' (by omega)]

/-! ## Tokens -/

variable {x v v' : List Char}

/-- A line break that ends before the stop does not depend on what stands behind it: a carriage
return looks one character ahead. -/
theorem scanNewline_local {c : Char} (hc : isLineBreak c = true)
    (h : (scanNewline (c :: x ++ b :: v)).chars.length ≤ (c :: x).length) :
    scanNewline (c :: x ++ b :: v') = scanNewline (c :: x ++ b :: v) := by
  cases x with
  | nil =>
      rcases (isLineBreak_iff c).1 hc with rfl | rfl
      · rfl
      · by_cases hb : b = '\n'
        · subst hb
          simp [scanNewline] at h
        · simp [scanNewline, hb]
  | cons d x =>
      rcases (isLineBreak_iff c).1 hc with rfl | rfl
      · rfl
      · by_cases hd : d = '\n'
        · subst hd
          rfl
        · simp [scanNewline, hd]

/-- A comment with its opening marks. -/
theorem scanBlockComment_local (hb : isStop b = true) (htwo : 2 ≤ x.length)
    (h : (scanBlockComment (x ++ b :: v)).chars.length ≤ x.length) :
    scanBlockComment (x ++ b :: v') = scanBlockComment (x ++ b :: v) := by
  simp only [scanBlockComment, List.drop_append_of_le_length htwo,
    List.take_append_of_le_length htwo, List.length_append, List.length_take] at h ⊢
  rw [scanComment_local hb v v' (by rw [List.length_drop]; omega)]

/-- A string with its opening marks. -/
theorem scanString_local (hb : isStop b = true) {opening : Nat} (verbatim : Bool)
    (hopening : opening ≤ x.length)
    (h : (scanString opening verbatim (x ++ b :: v)).chars.length ≤ x.length) :
    scanString opening verbatim (x ++ b :: v') = scanString opening verbatim (x ++ b :: v) := by
  simp only [scanString, List.drop_append_of_le_length hopening,
    List.take_append_of_le_length hopening, List.length_append, List.length_take] at h ⊢
  cases verbatim with
  | false =>
      simp only [Bool.false_eq_true, if_false] at h ⊢
      rw [scanQuoted_local hb v v' (by rw [List.length_drop]; omega)]
  | true =>
      simp only [if_true] at h ⊢
      rw [scanVerbatim_local hb v v' (by rw [List.length_drop]; omega)]

/-- A character literal with its opening quote. -/
theorem scanChar_local (hb : isStop b = true) (hone : 1 ≤ x.length)
    (h : (scanChar (x ++ b :: v)).chars.length ≤ x.length) :
    scanChar (x ++ b :: v') = scanChar (x ++ b :: v) := by
  simp only [scanChar, List.drop_append_of_le_length hone,
    List.take_append_of_le_length hone, List.length_append, List.length_take] at h ⊢
  rw [scanQuoted_local hb v v' (by rw [List.length_drop]; omega)]

/-- A choice is local if its test and its branches are. -/
theorem ite_local {p q : Bool} {l l' m m' : Lexeme} {n : Nat} (hcond : q = p)
    (hl : p = true → l.chars.length ≤ n → l' = l) (hm : m.chars.length ≤ n → m' = m) :
    (if p then l else m).chars.length ≤ n →
      (if q then l' else m') = if p then l else m := by
  subst hcond
  cases q with
  | true => exact hl rfl
  | false => exact hm

/-- **A token that ends before a stop does not depend on what stands behind it.** -/
theorem lexeme_local (hb : isStop b = true) (lineStart : Bool) (c : Char)
    (h : (lexeme lineStart c (x ++ b :: v)).chars.length ≤ (c :: x).length) :
    lexeme lineStart c (x ++ b :: v') = lexeme lineStart c (x ++ b :: v) := by
  have hsecond := head?_stop (b := b) x v v'
  -- a test of the second character that a stop fails is a test of what stands before it
  have hnonempty {d : Char} (hd : isStop d = false) (hhead : (x ++ b :: v).head? = some d) :
      2 ≤ (c :: x).length := by
    cases x with
    | nil => exact absurd (Option.some.inj hhead) (ne_of_isStop hb hd)
    | cons e x => simp
  have stop (f : List Char → Lexeme) (hf : ∀ x v, f (x ++ b :: v) = f x) :
      f (c :: (x ++ b :: v')) = f (c :: (x ++ b :: v)) := by
    rw [← List.cons_append, ← List.cons_append, hf, hf]
  have hthird : ((x ++ b :: v').drop 1).head? = ((x ++ b :: v).drop 1).head? ∨ x = [] := by
    cases x with
    | nil => exact .inr rfl
    | cons d x => exact .inl (head?_stop x v v')
  revert h
  unfold lexeme
  dsimp only
  refine ite_local rfl (fun hc h => scanNewline_local hc h) ?_
  refine ite_local rfl (fun _ h => ?_) ?_
  · exact congrArg (Lexeme.mk .whitespace · none) (takeWhile_local (x := c :: x) v v' h)
  refine ite_local rfl (fun _ h => scanDirective_local (x := c :: x) v v' h) ?_
  refine ite_local (by rw [hsecond]) (fun _ h => scanLineComment_local (x := c :: x) v v' h) ?_
  refine ite_local (by rw [hsecond]) (fun hp h => ?_) ?_
  · obtain ⟨-, hhead⟩ := Bool.and_eq_true_iff.1 hp
    exact scanBlockComment_local (x := c :: x) hb (hnonempty rfl (beq_iff_eq.1 hhead)) h
  refine ite_local (by rw [hsecond]) (fun _ _ => stop _ (scanNumber_stop hb)) ?_
  refine ite_local rfl (fun _ h => scanString_local (x := c :: x) hb false (by simp) h) ?_
  refine ite_local (by rw [hsecond]) (fun hp h => ?_) ?_
  · obtain ⟨-, hhead⟩ := Bool.and_eq_true_iff.1 hp
    exact scanString_local (x := c :: x) hb true (hnonempty rfl (beq_iff_eq.1 hhead)) h
  refine ite_local (by rw [hsecond]) (fun hp h => ?_) ?_
  · obtain ⟨-, hhead⟩ := Bool.and_eq_true_iff.1 hp
    exact scanString_local (x := c :: x) hb false (hnonempty rfl (beq_iff_eq.1 hhead)) h
  refine ite_local ?_ (fun hp h => ?_) ?_
  · rcases hthird with hthird | rfl
    · rw [hsecond, hthird]
    · have hat : ((some b : Option Char) == some '@') = false := by
        simpa using ne_of_isStop (c := '@') hb rfl
      have hdollar : ((some b : Option Char) == some '$') = false := by
        simpa using ne_of_isStop (c := '$') hb rfl
      simp [hat, hdollar]
  · obtain ⟨hp, hquote⟩ := Bool.and_eq_true_iff.1 hp
    refine scanString_local (x := c :: x) hb true ?_ h
    match x with
    | [] =>
        have hmark : b = '@' ∨ b = '$' := by simpa using (Bool.and_eq_true_iff.1 hp).2
        rcases hmark with rfl | rfl <;> cases hb
    | [_] => exact absurd (Option.some.inj (beq_iff_eq.1 hquote)) (ne_of_isStop hb rfl)
    | _ :: _ :: _ => simp
  refine ite_local rfl (fun _ h => scanChar_local (x := c :: x) hb (by simp) h) ?_
  refine ite_local rfl (fun _ _ => stop _ (scanWord_stop hb)) ?_
  refine ite_local (by rw [hsecond]) (fun _ _ => ?_) fun _ => ?_
  · rw [takeWhile_stop (isWordPart_stop hb), takeWhile_stop (isWordPart_stop hb)]
  · rw [scanPunctuation_stop hb, scanPunctuation_stop hb]

end CodeMend.Lexer
